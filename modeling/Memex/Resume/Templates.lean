import Memex.Lib.Placeholders
import Memex.Lib.ShellWords

/-! # Resume commands

`resume.rs`: a command template per source, in which nine placeholders stand for what is known
of a session. They are replaced one after the other, and the line is given to a shell. -/

namespace Memex.Resume

open Placeholders

/-- The placeholders of a template. -/
inductive Placeholder where
  | sessionId
  | project
  | source
  | sourcePathShell
  | sourcePath
  | sourceDirShell
  | sourceDir
  | cwdShell
  | cwd
deriving DecidableEq

/-- `ResumeSession`, with the label of its source, and the directory the command runs in. -/
structure ResumeSession where
  source : String
  sessionId : String
  project : String
  sourcePath : String
  sourceDir : String

/-- A placeholder as it is written. -/
def Placeholder.name : Placeholder → String
  | sessionId => "\x7bsession_id\x7d"
  | project => "\x7bproject\x7d"
  | source => "\x7bsource\x7d"
  | sourcePathShell => "\x7bsource_path_shell\x7d"
  | sourcePath => "\x7bsource_path\x7d"
  | sourceDirShell => "\x7bsource_dir_shell\x7d"
  | sourceDir => "\x7bsource_dir\x7d"
  | cwdShell => "\x7bcwd_shell\x7d"
  | cwd => "\x7bcwd\x7d"

/-- Placeholders whose values are quoted. -/
def Placeholder.isShell : Placeholder → Bool
  | sourcePathShell => true
  | sourceDirShell => true
  | cwdShell => true
  | _ => false

/-- What a placeholder stands for. -/
def Placeholder.value (session : ResumeSession) (dir : String) : Placeholder → String
  | sessionId => session.sessionId
  | project => session.project
  | source => session.source
  | sourcePathShell => session.sourcePath
  | sourcePath => session.sourcePath
  | sourceDirShell => session.sourceDir
  | sourceDir => session.sourceDir
  | cwdShell => dir
  | cwd => dir

/-- The order in which the placeholders are replaced. -/
def replacementOrder : List Placeholder :=
  [.sessionId, .project, .source, .sourcePathShell, .sourcePath, .sourceDirShell, .sourceDir,
    .cwdShell, .cwd]

/-- The symbols of a value between its quotes. -/
def escapeQuotes (value : List Char) : List Char :=
  value.flatMap fun symbol =>
    if symbol = '\'' then ['\'', '\\', '\'', '\''] else [symbol]

def shellQuote (value : String) : String :=
  if value.isEmpty then "''"
  else String.ofList ('\'' :: (escapeQuotes value.toList ++ ['\'']))

/-- What is put in the place of a placeholder. -/
def Placeholder.insert (session : ResumeSession) (dir : String) (placeholder : Placeholder) :
    String :=
  if placeholder.isShell then shellQuote (placeholder.value session dir)
  else placeholder.value session dir

def expandResumeTemplate (template : String) (session : ResumeSession) (dir : String) :
    String :=
  replacementOrder.foldl (fun text placeholder =>
    Replace.replaceString text placeholder.name (placeholder.insert session dir)) template

/-- `default_resume_template`, where `inPath` is `find_in_path(…).is_some()`. -/
def defaultResumeTemplate (inPath : String → Bool) (cmd : String) (remote : Bool) :
    Option String :=
  if cmd = "claude" ∧ (remote ∨ inPath "claude") then
    some "cd \x7bcwd_shell\x7d && claude --resume \x7bsession_id\x7d"
  else if cmd = "codex" ∧ (remote ∨ inPath "codex") then
    some "codex resume \x7bsession_id\x7d"
  else if cmd = "opencode" ∧ (remote ∨ inPath "opencode") then
    some "opencode --session \x7bsession_id\x7d"
  else if cmd = "cursor" then
    if remote ∨ inPath "cursor-agent" then
      some "cursor-agent --resume \x7bsession_id\x7d"
    else none
  else if cmd = "pi" ∧ (remote ∨ inPath "pi") then
    some "pi --session \x7bsource_path_shell\x7d"
  else if cmd = "omp" ∧ (remote ∨ inPath "omp") then
    some "omp --resume \x7bsource_path_shell\x7d"
  else if cmd = "copilot" ∧ (remote ∨ inPath "copilot") then
    some "copilot --resume \x7bsession_id\x7d"
  else if cmd = "jcode" ∧ (remote ∨ inPath "jcode") then
    some "cd \x7bcwd_shell\x7d && jcode --resume \x7bsession_id\x7d"
  else if cmd = "muse" ∧ (remote ∨ inPath "muse") then
    some "cd \x7bcwd_shell\x7d && muse resume \x7bsession_id\x7d"
  else if cmd = "grok" ∧ (remote ∨ inPath "grok") then
    some "cd \x7bcwd_shell\x7d && grok --resume \x7bsession_id\x7d"
  else if cmd = "antigravity" ∧ (remote ∨ inPath "agy") then
    some "cd \x7bcwd_shell\x7d && agy --conversation \x7bsession_id\x7d"
  else if cmd = "antigravity" ∧ inPath "antigravity" then
    some "cd \x7bcwd_shell\x7d && antigravity --conversation \x7bsession_id\x7d"
  else if cmd = "bob" ∧ (remote ∨ inPath "bob") then
    some "cd \x7bcwd_shell\x7d && bob --resume \x7bsession_id\x7d"
  else none

section Words

open ShellWords

/-- The pieces of a template, with holes for its placeholders. -/
def templatePieces (template : List Char) : List (Piece Placeholder Char) :=
  pieces (fun placeholder : Placeholder => placeholder.name.toList) replacementOrder
    (template.map .text)

/-- The shell reads a template whose placeholders are words of their own or parts of words. -/
def runPieces (value : Placeholder → List Char) (lexer : Lexer)
    (template : List (Piece Placeholder Char)) : Lexer :=
  template.foldl (fun lexer piece =>
    match piece with
    | .text symbol => step lexer symbol
    | .hole placeholder => stepValue lexer (value placeholder)) lexer

/-- The words of a command line. -/
def commandWords (line : String) : Option (List Token) :=
  finish (run {} line.toList)

/-- The words of a template in which each placeholder stands for its value as it is. -/
def templateWords (template : String) (session : ResumeSession) (dir : String) :
    Option (List Token) :=
  finish (runPieces (fun placeholder => (placeholder.value session dir).toList) {}
    (templatePieces template.toList))

/-- No quotation and no comment is open where a placeholder of a template stands. -/
def holesOutside : Lexer → List (Piece Placeholder Char) → Bool
  | _, [] => true
  | lexer, .text symbol :: rest => holesOutside (step lexer symbol) rest
  | lexer, .hole placeholder :: rest =>
    outside lexer && holesOutside (run lexer placeholder.name.toList) rest

/-- A template whose placeholders are all quoted ones and stand outside quotes. -/
structure ShellTemplate (template : List Char) : Prop where
  shell : ∀ placeholder ∈ replacementOrder, placeholder.name.toList <:+: template →
    placeholder.isShell = true
  outside : holesOutside {} (templatePieces template) = true

instance (template : List Char) : Decidable (ShellTemplate template) :=
  decidable_of_iff ((∀ placeholder ∈ replacementOrder, placeholder.name.toList <:+: template →
      placeholder.isShell = true) ∧ holesOutside {} (templatePieces template) = true)
    ⟨fun h => ⟨h.1, h.2⟩, fun h => ⟨h.shell, h.outside⟩⟩

end Words

end Memex.Resume
