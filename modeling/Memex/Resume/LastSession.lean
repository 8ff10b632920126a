import Memex.Resume.Templates
import Memex.Usage.OriginFilter

/-! # Resuming the last session

`run_herdr_resume` of `cli.rs`: without a session id the newest interactive session is resumed
that has a resume command, of a directory first and then of the whole catalogue. -/

namespace Memex.Resume

/-- `SessionDetailRow`, as far as resuming reads it. -/
structure SessionDetailRow where
  source : SourceKind
  sessionId : String
  sourcePath : String := ""
  project : String := ""
  cwd : Option String := none
  gitRoot : Option String := none
  conversationKind : Option String := none
  deriving DecidableEq

/-- `SourceFilter::storage_labels`. -/
def storageLabels (filter : SourceKind) : List String :=
  match filter with
  | .codex => ["codex", "codex-session", "codex-history"]
  | source => [source.storageLabel]

/-- The commands of `UserConfig`, by source, and whether a program is on the search path. -/
structure ResumeConfig where
  resumeCmd : SourceKind → Option String := fun _ => none
  inPath : String → Bool := fun _ => false

def resumeTemplate (config : ResumeConfig) (source : SourceKind) (remote : Bool) :
    Option String :=
  match source with
  | .openClaw => none
  | .hermes => defaultResumeTemplate config.inPath source.label remote
  | _ => (config.resumeCmd source).or (defaultResumeTemplate config.inPath source.label remote)

section Paths

/-- A path without its trailing slashes and `.` components, from its end. -/
def trimEnd : List Char → List Char
  | ['/'] => ['/']
  | '/' :: rest => trimEnd rest
  | ['.', '/'] => ['/']
  | '.' :: '/' :: rest => trimEnd rest
  | path => path

/-- `Path::parent` as a text, from its end; the root and the empty path have none. -/
def parentReversed (path : List Char) : Option (List Char) :=
  match trimEnd path with
  | [] => none
  | ['/'] => none
  | trimmed => some (trimEnd (trimmed.dropWhile (· ≠ '/')))

def sourceDirOf (sourcePath : String) : String :=
  (parentReversed sourcePath.toList.reverse).elim "" fun path => String.ofList path.reverse

end Paths

section Catalogue

/-- `trim_end_matches('/')`. -/
def trimSlashes (path : List Char) : List Char :=
  (path.reverse.dropWhile (· = '/')).reverse

/-- `LIKE 'root/%'`, which makes no difference between the cases of ASCII letters. -/
def isBelow (root path : List Char) : Bool :=
  ((root ++ ['/']).map Char.toLower).isPrefixOf (path.map Char.toLower)

/-- The clause of `session_selection_sql` on the directory. -/
def matchesCwd (cwd : String) (row : SessionDetailRow) : Bool :=
  let root := trimSlashes cwd.toList
  row.cwd.any (fun path => path.toList = root || isBelow root path.toList) ||
    row.gitRoot.any (fun path => path.toList = root)

/-- The rows that `query_sessions_detailed` selects. -/
def selects (source : Option SourceKind) (cwd : Option String) (row : SessionDetailRow) : Bool :=
  source.all (fun filter => (storageLabels filter).contains row.source.storageLabel) &&
    cwd.all (matchesCwd · row)

/-- `query_sessions_detailed` on a catalogue whose rows stand newest first. -/
def querySessionsDetailed (newestFirst : List SessionDetailRow) (source : Option SourceKind)
    (cwd : Option String) (limit : Option Nat) : List SessionDetailRow :=
  let rows := newestFirst.filter (selects source cwd)
  limit.elim rows rows.take

/-- `canonical_cwd_filter`; a directory that cannot be resolved is taken as it is. -/
def canonicalCwdFilter (canonicalize : String → Option String) (cwd : Option String) :
    Option String :=
  cwd.map fun cwd => (canonicalize cwd).getD cwd

end Catalogue

/-- The command that resumes a session, and the directory it runs in. -/
def sessionResumeCommand (config : ResumeConfig) (row : SessionDetailRow) :
    Option (String × String) :=
  (resumeTemplate config row.source false).map fun template =>
    let sourceDir := sourceDirOf row.sourcePath
    let cwd := row.cwd.getD sourceDir
    (expandResumeTemplate template
      { source := row.source.label, sessionId := row.sessionId, project := row.project
        sourcePath := row.sourcePath, sourceDir } cwd, cwd)

/-- A session of the user, not of a background worker. -/
def interactive (row : SessionDetailRow) : Bool :=
  row.conversationKind.all (· = "main")

/-- A session with the command that resumes it and its directory. -/
abbrev Resumed := SessionDetailRow × String × String

/-- The first of some rows that has a resume command. -/
def firstResumable (config : ResumeConfig) (rows : List SessionDetailRow) : Option Resumed :=
  rows.findSome? fun row => (sessionResumeCommand config row).map (row, ·)

/-- The rows that are left of the query, by a session id or without one. -/
def candidateRows (newestFirst : List SessionDetailRow) (sessionId : Option String)
    (cwdFilter : Option String) (strictCwd : Bool) (source : Option SourceKind) :
    Except String (List SessionDetailRow) :=
  let rows := querySessionsDetailed newestFirst source cwdFilter none
  match sessionId with
  | some id =>
    let rows := rows.filter fun row => row.sessionId = id
    if rows = [] then .error s!"session '{id}' not found" else .ok rows
  | none =>
    let rows := rows.filter interactive
    if rows = [] ∧ cwdFilter.isSome ∧ ¬ strictCwd then
      .ok ((querySessionsDetailed newestFirst source none (some 50)).filter interactive)
    else .ok rows

/-- `run_herdr_resume` up to the session that is given to the pane or to the shell. -/
def runHerdrResume (config : ResumeConfig) (newestFirst : List SessionDetailRow)
    (canonicalize : String → Option String) (sessionId cwd : Option String) (strictCwd : Bool)
    (source : Option SourceKind) : Except String Resumed := do
  let rows ← candidateRows newestFirst sessionId (canonicalCwdFilter canonicalize cwd) strictCwd
    source
  match firstResumable config rows with
  | some resumed => .ok resumed
  | none => .error "no resumable session found"

section Newest

variable {config : ResumeConfig} {newestFirst rows shown : List SessionDetailRow}
  {canonicalize : String → Option String} {cwd : Option String} {strictCwd : Bool}
  {source : Option SourceKind}

/-- A session that may be chosen: one of the user's own with a resume command. -/
def eligible (config : ResumeConfig) (row : SessionDetailRow) : Bool :=
  interactive row && (sessionResumeCommand config row).isSome

/-- The newest eligible of some rows is resumed, and an error comes only where there is none. -/
def ResumesNewest (config : ResumeConfig) (rows : List SessionDetailRow) :
    Except String Resumed → Prop
  | .ok (row, resume) =>
      rows.find? (eligible config) = some row ∧ sessionResumeCommand config row = some resume
  | .error _ => ∀ row ∈ rows, eligible config row = false

/-- The rows to choose from: those of the directory where one of them is interactive or no other
may be chosen, and else the whole catalogue. -/
def rowsOf (newestFirst : List SessionDetailRow) (cwdFilter : Option String) (strictCwd : Bool)
    (source : Option SourceKind) : List SessionDetailRow :=
  let own := newestFirst.filter (selects source cwdFilter)
  if own.any interactive || strictCwd || cwdFilter.isNone then own
  else newestFirst.filter (selects source none)

/-- The last step of `run_herdr_resume`. -/
def resumeFirst (config : ResumeConfig) (rows : List SessionDetailRow) : Except String Resumed :=
  match firstResumable config rows with
  | some resumed => .ok resumed
  | none => .error "no resumable session found"

/-- The first resumable of the interactive rows is the first eligible row. -/
theorem firstResumable_filter (config : ResumeConfig) (rows : List SessionDetailRow) :
    firstResumable config (rows.filter interactive) =
      (rows.find? (eligible config)).bind fun row =>
        (sessionResumeCommand config row).map (row, ·) := by
  induction rows with
  | nil => rfl
  | cons row rest ih =>
      rw [firstResumable] at ih ⊢
      cases hinteractive : interactive row with
      | false =>
          have heligible : ¬ eligible config row = true := by simp [eligible, hinteractive]
          rw [List.filter_cons_of_neg (by simp [hinteractive]), List.find?_cons_of_neg heligible]
          exact ih
      | true =>
          rw [List.filter_cons_of_pos hinteractive, List.findSome?_cons]
          cases hcommand : sessionResumeCommand config row with
          | none =>
              have heligible : ¬ eligible config row = true := by simp [eligible, hcommand]
              rw [List.find?_cons_of_neg heligible]
              exact ih
          | some resume =>
              have heligible : eligible config row = true := by
                simp [eligible, hinteractive, hcommand]
              rw [List.find?_cons_of_pos heligible]
              simp [hcommand]

/-- Choosing from some rows resumes the newest of others exactly if both have one newest. -/
theorem resumesNewest_resumeFirst_iff :
    ResumesNewest config rows (resumeFirst config (shown.filter interactive)) ↔
      shown.find? (eligible config) = rows.find? (eligible config) := by
  rw [resumeFirst, firstResumable_filter]
  cases hshown : shown.find? (eligible config) with
  | none =>
      rw [Option.bind_none, eq_comm, List.find?_eq_none]
      simp only [ResumesNewest, Bool.not_eq_true]
  | some row =>
      have heligible : eligible config row = true := List.find?_some hshown
      rw [eligible, Bool.and_eq_true] at heligible
      obtain ⟨resume, hresume⟩ := Option.isSome_iff_exists.mp heligible.2
      rw [Option.bind_some, hresume, Option.map_some]
      constructor
      · exact fun h => h.1.symm
      · exact fun h => ⟨h.symm, hresume⟩

/-- The first eligible row stands among the first so many exactly if any does that is eligible. -/
theorem find?_take_eq_iff (limit : Nat) :
    (rows.take limit).find? (eligible config) = rows.find? (eligible config) ↔
      ((∃ row ∈ rows, eligible config row = true) →
        ∃ row ∈ rows.take limit, eligible config row = true) := by
  have hsplit : rows.find? (eligible config) =
      ((rows.take limit).find? (eligible config)).or
        ((rows.drop limit).find? (eligible config)) := by
    rw [← List.find?_append, List.take_append_drop]
  constructor
  · rintro heq ⟨row, hmem, heligible⟩
    have hsome : (rows.find? (eligible config)).isSome = true :=
      List.find?_isSome.mpr ⟨row, hmem, heligible⟩
    rw [← heq] at hsome
    exact List.find?_isSome.mp hsome
  · intro h
    cases htake : (rows.take limit).find? (eligible config) with
    | some row =>
        rw [hsplit, htake, Option.some_or]
    | none =>
        symm
        apply List.find?_eq_none.mpr
        intro row hmem heligible
        obtain ⟨other, hother, heligible⟩ := h ⟨row, hmem, heligible⟩
        exact List.find?_eq_none.mp htake other hother heligible

/-- The rows that resuming without a session id chooses from. -/
theorem candidateRows_none (cwdFilter : Option String) :
    candidateRows newestFirst none cwdFilter strictCwd source =
      .ok (List.filter interactive
        (if (newestFirst.filter (selects source cwdFilter)).any interactive || strictCwd ||
            cwdFilter.isNone then newestFirst.filter (selects source cwdFilter)
        else (newestFirst.filter (selects source none)).take 50)) := by
  have hnone : (newestFirst.filter (selects source cwdFilter)).filter interactive = [] ↔
      (newestFirst.filter (selects source cwdFilter)).any interactive = false := by
    rw [List.filter_eq_nil_iff, List.any_eq_false]
  rw [candidateRows]
  simp only [querySessionsDetailed, Option.elim_none, Option.elim_some, hnone]
  cases hown : (newestFirst.filter (selects source cwdFilter)).any interactive <;>
    cases strictCwd <;> cases cwdFilter <;> rfl

theorem runHerdrResume_eq {sessionId : Option String}
    (h : candidateRows newestFirst sessionId (canonicalCwdFilter canonicalize cwd) strictCwd source
      = .ok rows) :
    runHerdrResume config newestFirst canonicalize sessionId cwd strictCwd source =
      resumeFirst config rows := by
  rw [runHerdrResume, h]
  rfl

/-- Without a session id the newest eligible session is resumed, of the directory or else of the
whole catalogue, exactly if an eligible one stands among the fifty newest rows of the catalogue,
where these are asked for and there is an eligible one at all. -/
theorem resume_last_newest_iff :
    ResumesNewest config
        (rowsOf newestFirst (canonicalCwdFilter canonicalize cwd) strictCwd source)
        (runHerdrResume config newestFirst canonicalize none cwd strictCwd source) ↔
      ((newestFirst.filter (selects source (canonicalCwdFilter canonicalize cwd))).any
          interactive = false → strictCwd = false → cwd.isSome = true →
        (∃ row ∈ newestFirst.filter (selects source none), eligible config row = true) →
          ∃ row ∈ (newestFirst.filter (selects source none)).take 50,
            eligible config row = true) := by
  rw [runHerdrResume_eq (candidateRows_none _), resumesNewest_resumeFirst_iff, rowsOf]
  have hisNone : (canonicalCwdFilter canonicalize cwd).isNone = cwd.isNone := by
    cases cwd <;> rfl
  rw [hisNone]
  split
  next hown =>
    refine iff_of_true rfl fun hnone hstrict hcwd => ?_
    rw [hnone, hstrict, Bool.false_or, Bool.false_or, Option.isNone_iff_eq_none] at hown
    rw [hown] at hcwd
    cases hcwd
  next hown =>
    simp only [Bool.or_eq_true, not_or, Bool.not_eq_true, Option.isNone_eq_false_iff] at hown
    obtain ⟨⟨hnone, hstrict⟩, hcwd⟩ := hown
    rw [find?_take_eq_iff]
    exact ⟨fun h _ _ _ => h, fun h => h hnone hstrict hcwd⟩

/-- A session of the user in another directory, older than fifty sessions of workers. -/
def behindWorkers : List SessionDetailRow :=
  List.replicate 50
      { source := .claude, sessionId := "worker", conversationKind := some "subagent" } ++
    [{ source := .claude, sessionId := "own", cwd := some "/home/user/project" }]

/-- The session of the user is not found behind fifty newer sessions of workers. -/
theorem workers_hide_own_session :
    ¬ ResumesNewest { inPath := fun _ => true }
        (rowsOf behindWorkers (canonicalCwdFilter (fun _ => none) (some "/elsewhere")) false none)
        (runHerdrResume { inPath := fun _ => true } behindWorkers (fun _ => none) none
          (some "/elsewhere") false none) := by
  rw [runHerdrResume_eq (candidateRows_none _), resumesNewest_resumeFirst_iff]
  decide +kernel

end Newest

end Memex.Resume
