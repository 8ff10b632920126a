import Memex.Resume.Templates

/-! # When a resume command carries its values as data

A quoted value is one literal word wherever no quotation is open. The values come out as they
are as long as none of them contains a placeholder that is replaced after it, and a session id,
which the built-in templates insert as it is, stands for itself as a word. -/

namespace Memex.Resume

open Placeholders ShellWords

section Quoting

variable {text : List Char}

/-- What is read between the quotes, up to the closing one. -/
theorem run_escapeQuotes (tokens : List Token) (chars : List WordChar) (value : List Char) :
    run ⟨tokens, .single chars⟩ (escapeQuotes value ++ ['\'']) =
      ⟨tokens, .plain (some (chars ++ value.map .literal))⟩ := by
  induction value generalizing chars with
  | nil =>
      rw [List.map_nil, List.append_nil]
      rfl
  | cons first rest ih =>
      by_cases hquote : first = '\''
      · -- the quotation is closed, a quote is escaped and the quotation opened again
        have hsplit : escapeQuotes (first :: rest) ++ ['\''] =
            ['\'', '\\', '\'', '\''] ++ (escapeQuotes rest ++ ['\'']) := by
          rw [escapeQuotes, List.flatMap_cons, if_pos hquote, List.append_assoc]
          rfl
        have hreopened : run ⟨tokens, .single chars⟩ ['\'', '\\', '\'', '\''] =
            ⟨tokens, .single (chars ++ [WordChar.literal '\''])⟩ := rfl
        rw [hsplit, run_append, hreopened, ih, hquote, List.map_cons, List.append_assoc,
          List.singleton_append]
      · have hsplit : escapeQuotes (first :: rest) ++ ['\''] =
            first :: (escapeQuotes rest ++ ['\'']) := by
          rw [escapeQuotes, List.flatMap_cons, if_neg hquote]
          rfl
        rw [hsplit, run_cons, step]
        dsimp only
        rw [if_neg hquote, ih, List.map_cons, List.append_assoc, List.singleton_append]

theorem toList_shellQuote (value : String) :
    (shellQuote value).toList = '\'' :: (escapeQuotes value.toList ++ ['\'']) := by
  rw [shellQuote]
  split
  next hempty =>
    rw [String.isEmpty_iff.mp hempty]
    rfl
  · exact String.toList_ofList

/-- A quoted value is one literal word, or a part of one, where no quotation is open. -/
theorem run_shellQuote {lexer : Lexer} (houtside : outside lexer) (value : String) :
    run lexer (shellQuote value).toList = stepValue lexer value.toList := by
  obtain ⟨tokens, chars, hstep, hvalue⟩ := step_quote_of_outside houtside
  rw [toList_shellQuote, run_cons, hstep, run_escapeQuotes, hvalue]

theorem enclosed_shellQuote (value : String) : Enclosed '\'' (shellQuote value).toList :=
  ⟨escapeQuotes value.toList, toList_shellQuote value⟩

/-- A text without quotes that the quoted value begins with is what the value begins with. -/
theorem prefix_of_prefix_escapeQuotes {value : List Char} (hquote : '\'' ∉ text)
    (h : text <+: escapeQuotes value ++ ['\'']) : text <+: value := by
  induction text generalizing value with
  | nil => exact List.nil_prefix
  | cons first rest ih =>
      have hfirst : first ≠ '\'' := fun heq => hquote (heq ▸ List.mem_cons_self)
      cases value with
      | nil =>
          rw [escapeQuotes, List.flatMap_nil, List.nil_append, List.cons_prefix_cons] at h
          exact absurd h.1 hfirst
      | cons symbol value =>
          by_cases hsymbol : symbol = '\''
          · rw [escapeQuotes, List.flatMap_cons, if_pos hsymbol, List.append_assoc,
              List.cons_append, List.cons_prefix_cons] at h
            exact absurd h.1 hfirst
          · rw [escapeQuotes, List.flatMap_cons, if_neg hsymbol, List.append_assoc,
              List.cons_append, List.nil_append, List.cons_prefix_cons] at h
            exact List.cons_prefix_cons.mpr
              ⟨h.1, ih (fun hmem => hquote (List.mem_cons_of_mem _ hmem)) h.2⟩

/-- A text without quotes and backslashes is found in a quoted value only if it is found in
the value. -/
theorem infix_of_infix_shellQuote {value : String} (hne : text ≠ []) (hquote : '\'' ∉ text)
    (hescape : '\\' ∉ text) (h : text <:+: (shellQuote value).toList) :
    text <:+: value.toList := by
  have hnot : ∀ symbol rest, symbol ∉ text → ¬ text <+: symbol :: rest := by
    intro symbol rest hmem hbegins
    cases text with
    | nil => exact hne rfl
    | cons first after =>
        exact hmem ((List.cons_prefix_cons.mp hbegins).1 ▸ List.mem_cons_self)
  have hskip : ∀ symbol rest, symbol ∉ text → text <:+: symbol :: rest → text <:+: rest := by
    intro symbol rest hmem hinfix
    obtain hbegins | hlater := List.infix_cons_iff.mp hinfix
    · exact absurd hbegins (hnot symbol rest hmem)
    · exact hlater
  rw [toList_shellQuote] at h
  replace h := hskip _ _ hquote h
  generalize value.toList = value at h ⊢
  induction value with
  | nil => exact hskip _ _ hquote h
  | cons symbol value ih =>
      by_cases hsymbol : symbol = '\''
      · rw [escapeQuotes, List.flatMap_cons, if_pos hsymbol, List.append_assoc] at h
        have hrest := hskip _ _ hquote (hskip _ _ hquote (hskip _ _ hescape
          (hskip _ _ hquote h)))
        exact (ih hrest).trans (List.suffix_cons _ _).isInfix
      · have hsplit : escapeQuotes (symbol :: value) ++ ['\''] =
            symbol :: (escapeQuotes value ++ ['\'']) := by
          rw [escapeQuotes, List.flatMap_cons, if_neg hsymbol]
          rfl
        rw [hsplit] at h
        obtain hbegins | hlater := List.infix_cons_iff.mp h
        · apply List.IsPrefix.isInfix
          apply prefix_of_prefix_escapeQuotes hquote
          rwa [hsplit]
        · exact (ih hlater).trans (List.suffix_cons _ _).isInfix

end Quoting

section Expansion

variable {session : ResumeSession} {dir : String} {template : List Char}

/-- The name of a placeholder, a list of symbols. -/
abbrev nameOf (placeholder : Placeholder) : List Char := placeholder.name.toList

/-- What is put in its place. -/
abbrev insertOf (session : ResumeSession) (dir : String) (placeholder : Placeholder) :
    List Char :=
  (placeholder.insert session dir).toList

/-- What it stands for. -/
abbrev valueOf (session : ResumeSession) (dir : String) (placeholder : Placeholder) :
    List Char :=
  (placeholder.value session dir).toList

theorem mem_replacementOrder (placeholder : Placeholder) :
    placeholder ∈ replacementOrder := by
  cases placeholder <;> decide

theorem name_ne_nil : ∀ placeholder ∈ replacementOrder, nameOf placeholder ≠ [] := by
  decide

theorem quote_not_mem_name : ∀ placeholder ∈ replacementOrder, '\'' ∉ nameOf placeholder := by
  decide

theorem escape_not_mem_name : ∀ placeholder ∈ replacementOrder, '\\' ∉ nameOf placeholder := by
  decide

theorem blank_not_mem_name : ∀ placeholder ∈ replacementOrder, ' ' ∉ nameOf placeholder := by
  decide

/-- The name of a placeholder is a plain word. -/
theorem plainWord_name (placeholder : Placeholder) :
    PlainWord (nameOf placeholder) ∧ (nameOf placeholder).head? ≠ some '-' := by
  refine ⟨⟨?_, ?_, ?_⟩, ?_⟩
  · exact name_ne_nil placeholder (mem_replacementOrder placeholder)
  · cases placeholder <;> exact List.all_eq_true.mp (by decide)
  · intro symbol hhead
    cases placeholder <;>
      · cases hhead
        decide
  · cases placeholder <;> decide

/-- The nine replacements, on lists of symbols. -/
theorem toList_expandResumeTemplate (template : String) :
    (expandResumeTemplate template session dir).toList =
      substitute nameOf (insertOf session dir) replacementOrder template.toList := by
  rw [expandResumeTemplate, substitute]
  generalize replacementOrder = order
  induction order generalizing template with
  | nil => rfl
  | cons first rest ih =>
      rw [List.foldl_cons, List.foldl_cons, ih, Replace.replaceString, String.toList_ofList]

/-- No value contains a placeholder that is replaced after it. -/
def ValuesFlat (session : ResumeSession) (dir : String) (template : List Char) : Prop :=
  NoneNested nameOf (valueOf session dir) replacementOrder template

/-- What is inserted contains a placeholder only if the value does. -/
theorem infix_value_of_infix_insert {placeholder other : Placeholder}
    (h : nameOf other <:+: insertOf session dir placeholder) :
    nameOf other <:+: valueOf session dir placeholder := by
  have hmem := mem_replacementOrder other
  rw [insertOf, Placeholder.insert] at h
  split at h
  · exact infix_of_infix_shellQuote (name_ne_nil other hmem) (quote_not_mem_name other hmem)
      (escape_not_mem_name other hmem) h
  · exact h

theorem ValuesFlat.noneNested (h : ValuesFlat session dir template) :
    NoneNested nameOf (insertOf session dir) replacementOrder template := by
  apply List.Pairwise.imp _ h
  intro earlier later hflat hname hinsert
  exact hflat hname (infix_value_of_infix_insert hinsert)

/-- Quoted values are read as they are, wherever the template leaves no quotation open. -/
theorem run_fill_eq (pieces : List (Piece Placeholder Char)) {left right : Lexer}
    (hshape : shape left.pending = shape right.pending)
    (hshell : ∀ placeholder, .hole placeholder ∈ pieces → placeholder.isShell = true)
    (houtside : holesOutside right pieces = true) :
    run left (fill (insertOf session dir) pieces) =
      runPieces (valueOf session dir) left pieces ∧
    shape (runPieces (valueOf session dir) left pieces).pending =
      shape (run right (fill nameOf pieces)).pending := by
  induction pieces generalizing left right with
  | nil => exact ⟨rfl, hshape⟩
  | cons first rest ih =>
      have hrest := fun placeholder hmem => hshell placeholder (List.mem_cons_of_mem _ hmem)
      cases first with
      | text symbol =>
          rw [fill_text, fill_text, run_cons, run_cons]
          apply ih _ hrest houtside
          rw [shape_step left, shape_step right, hshape]
      | hole placeholder =>
          rw [holesOutside, Bool.and_eq_true] at houtside
          obtain ⟨hhere, hafter⟩ := houtside
          have hleft : outside left = true := by
            rw [outside_congr hshape]
            exact hhere
          have hinsert : insertOf session dir placeholder =
              (shellQuote (placeholder.value session dir)).toList := by
            rw [insertOf, Placeholder.insert,
              if_pos (hshell placeholder List.mem_cons_self)]
          obtain ⟨hplain, hminus⟩ := plainWord_name placeholder
          rw [fill_hole, fill_hole, run_append, run_append, hinsert, run_shellQuote hleft]
          apply ih _ hrest hafter
          rw [shape_stepValue hleft, hplain.shape_run hminus hhere]

/-- The values of a template of quoted placeholders come out as they are. -/
theorem ShellTemplate.run_eq (h : ShellTemplate template)
    (hflat : ValuesFlat session dir template) :
    run {} (substitute nameOf (insertOf session dir) replacementOrder template) =
      runPieces (valueOf session dir) {} (templatePieces template) ∧
    shape (runPieces (valueOf session dir) {} (templatePieces template)).pending =
      shape (run {} template).pending := by
  have hname : ∀ placeholder ∈ replacementOrder,
      nameOf placeholder ≠ [] ∧ '\'' ∉ nameOf placeholder :=
    fun placeholder hmem => ⟨name_ne_nil placeholder hmem, quote_not_mem_name placeholder hmem⟩
  have hspell : fill nameOf (templatePieces template) = template :=
    (fill_pieces fun placeholder hmem => name_ne_nil placeholder hmem).trans
      (fill_map_text template)
  have hshell : ∀ placeholder, nameOf placeholder <:+: template → placeholder.isShell = true :=
    fun placeholder hinfix => h.shell placeholder (mem_replacementOrder placeholder) hinfix
  have henclosed : ∀ placeholder, nameOf placeholder <:+: template →
      Enclosed '\'' (insertOf session dir placeholder) := by
    intro placeholder hinfix
    rw [insertOf, Placeholder.insert, if_pos (hshell placeholder hinfix)]
    exact enclosed_shellQuote _
  have hsubstitute : substitute nameOf (insertOf session dir) replacementOrder template =
      fill (insertOf session dir) (templatePieces template) :=
    substitute_eq_fill hname henclosed hflat.noneNested
  have hrun := @run_fill_eq session dir (templatePieces template) {} {} rfl (by
    intro placeholder hmem
    apply hshell
    rw [← hspell]
    exact infix_of_hole_mem hmem) h.outside
  rw [hspell] at hrun
  rw [hsubstitute]
  exact hrun

end Expansion

section BuiltIn

variable {session : ResumeSession} {dir : String} {template : List Char}

theorem runPieces_append (value : Placeholder → List Char) (lexer : Lexer)
    (left right : List (Piece Placeholder Char)) :
    runPieces value lexer (left ++ right) = runPieces value (runPieces value lexer left) right :=
  List.foldl_append

/-- A template of quoted placeholders with a session id as its last word. -/
structure BareTemplate (before template : List Char) : Prop where
  spelled : template = before ++ ' ' :: nameOf .sessionId
  shell : ShellTemplate before
  word : shape (run {} before).pending = .plain (some [])

/-- The words of a template and of its expansion before the session id are the same, and a
blank ends the last of them. -/
theorem BareTemplate.run_blank {before : List Char} (h : BareTemplate before template)
    (hflat : ValuesFlat session dir template) :
    ∃ tokens,
      run {} (substitute nameOf (insertOf session dir) replacementOrder template) =
        run ⟨tokens, .plain none⟩ (valueOf session dir .sessionId) ∧
      runPieces (valueOf session dir) {} (templatePieces template) =
        ⟨tokens, .plain (some ((valueOf session dir .sessionId).map .literal))⟩ := by
  have hname : ∀ placeholder ∈ replacementOrder,
      nameOf placeholder ≠ [] ∧ ' ' ∉ nameOf placeholder :=
    fun placeholder hmem => ⟨name_ne_nil placeholder hmem, blank_not_mem_name placeholder hmem⟩
  have hbefore : ValuesFlat session dir before := by
    apply List.Pairwise.imp _ hflat
    intro earlier later himp hinfix
    apply himp
    rw [h.spelled]
    exact hinfix.trans (List.prefix_append _ _).isInfix
  obtain ⟨hrun, hshape⟩ := h.shell.run_eq hbefore
  -- the session id is inserted as it is, and nothing in it is replaced
  have hid : substitute nameOf (insertOf session dir) replacementOrder (nameOf .sessionId) =
      valueOf session dir .sessionId := by
    have hlater : ∀ placeholder ∈ replacementOrder.tail,
        ¬ nameOf placeholder <:+: valueOf session dir .sessionId := by
      intro placeholder hmem
      apply (List.pairwise_cons.mp hflat).1 placeholder hmem
      rw [h.spelled, List.append_cons]
      exact (List.suffix_append _ _).isInfix
    have hfirst := @Replace.replaceAll_append_self _ _ _ (insertOf session dir .sessionId)
      (name_ne_nil .sessionId (mem_replacementOrder _)) []
    rw [List.append_nil, Replace.replaceAll_nil, List.append_nil] at hfirst
    rw [substitute, replacementOrder, List.foldl_cons, hfirst]
    exact substitute_of_not_infix hlater
  have hpieces : pieces nameOf replacementOrder ((nameOf .sessionId).map .text) =
      [.hole .sessionId] := by decide +kernel
  have hsplit : templatePieces template =
      templatePieces before ++ .text ' ' :: [.hole .sessionId] := by
    rw [templatePieces, h.spelled, List.map_append, List.map_cons,
      pieces_append_cons hname, hpieces]
    rfl
  generalize hlexer : runPieces (valueOf session dir) {} (templatePieces before) = lexer at *
  obtain ⟨tokens, pending⟩ := lexer
  rw [h.word] at hshape
  cases pending with
  | plain chars =>
      refine ⟨delimit tokens chars, ?_, ?_⟩
      · rw [h.spelled, substitute_append_cons hname, run_append, hrun, hid, run_cons]
        rfl
      · rw [hsplit, runPieces_append, hlexer]
        rfl
  | escaped _ => cases hshape
  | single _ => cases hshape
  | double _ => cases hshape
  | doubleEscaped _ => cases hshape
  | backquote _ => cases hshape
  | operator _ => cases hshape
  | comment => cases hshape

/-- What the built-in templates have before the session id. -/
def bareBeginnings : List String :=
  ["cd \x7bcwd_shell\x7d && claude --resume", "codex resume", "opencode --session",
    "cursor-agent --resume", "copilot --resume", "cd \x7bcwd_shell\x7d && jcode --resume",
    "cd \x7bcwd_shell\x7d && muse resume", "cd \x7bcwd_shell\x7d && grok --resume",
    "cd \x7bcwd_shell\x7d && agy --conversation",
    "cd \x7bcwd_shell\x7d && antigravity --conversation",
    "cd \x7bcwd_shell\x7d && bob --resume"]

/-- The built-in templates of quoted placeholders only. -/
def shellDefaults : List String :=
  ["pi --session \x7bsource_path_shell\x7d", "omp --resume \x7bsource_path_shell\x7d"]

theorem bareBeginnings_shell : ∀ before ∈ bareBeginnings,
    ShellTemplate before.toList ∧ shape (run {} before.toList).pending = .plain (some []) := by
  simp only [bareBeginnings, List.forall_mem_cons, String.reduceToList]
  decide +kernel

theorem shellDefaults_shell : ∀ template ∈ shellDefaults, ShellTemplate template.toList := by
  decide +kernel

theorem eq_some_of_ite {p : Prop} [Decidable p] {first rest : Option String}
    {template : String} (h : (if p then first else rest) = some template) :
    first = some template ∨ rest = some template := by
  split at h
  · exact Or.inl h
  · exact Or.inr h

/-- A built-in template is one of quoted placeholders, perhaps with a session id as its last
word. -/
theorem defaultResumeTemplate_cases {inPath : String → Bool} {cmd : String} {remote : Bool}
    {template : String} (h : defaultResumeTemplate inPath cmd remote = some template) :
    ShellTemplate template.toList ∨ ∃ before, BareTemplate before template.toList := by
  have hbare : ∀ before ∈ bareBeginnings,
      template = before ++ (" " ++ Placeholder.sessionId.name) →
      ShellTemplate template.toList ∨ ∃ before, BareTemplate before template.toList := by
    rintro before hmem rfl
    obtain ⟨hshell, hword⟩ := bareBeginnings_shell before hmem
    refine Or.inr ⟨before.toList, ⟨?_, hshell, hword⟩⟩
    rw [String.toList_append, String.toList_append]
    rfl
  have hshell : template ∈ shellDefaults →
      ShellTemplate template.toList ∨ ∃ before, BareTemplate before template.toList :=
    fun hmem => Or.inl (shellDefaults_shell template hmem)
  rw [defaultResumeTemplate] at h
  obtain hhere | h := eq_some_of_ite h
  · cases hhere
    exact hbare "cd \x7bcwd_shell\x7d && claude --resume" (by decide) rfl
  obtain hhere | h := eq_some_of_ite h
  · cases hhere
    exact hbare "codex resume" (by decide) rfl
  obtain hhere | h := eq_some_of_ite h
  · cases hhere
    exact hbare "opencode --session" (by decide) rfl
  obtain hhere | h := eq_some_of_ite h
  · obtain hhere | hnone := eq_some_of_ite hhere
    · cases hhere
      exact hbare "cursor-agent --resume" (by decide) rfl
    · cases hnone
  obtain hhere | h := eq_some_of_ite h
  · cases hhere
    exact hshell (by decide)
  obtain hhere | h := eq_some_of_ite h
  · cases hhere
    exact hshell (by decide)
  obtain hhere | h := eq_some_of_ite h
  · cases hhere
    exact hbare "copilot --resume" (by decide) rfl
  obtain hhere | h := eq_some_of_ite h
  · cases hhere
    exact hbare "cd \x7bcwd_shell\x7d && jcode --resume" (by decide) rfl
  obtain hhere | h := eq_some_of_ite h
  · cases hhere
    exact hbare "cd \x7bcwd_shell\x7d && muse resume" (by decide) rfl
  obtain hhere | h := eq_some_of_ite h
  · cases hhere
    exact hbare "cd \x7bcwd_shell\x7d && grok --resume" (by decide) rfl
  obtain hhere | h := eq_some_of_ite h
  · cases hhere
    exact hbare "cd \x7bcwd_shell\x7d && agy --conversation" (by decide) rfl
  obtain hhere | h := eq_some_of_ite h
  · cases hhere
    exact hbare "cd \x7bcwd_shell\x7d && antigravity --conversation" (by decide) rfl
  obtain hhere | h := eq_some_of_ite h
  · cases hhere
    exact hbare "cd \x7bcwd_shell\x7d && bob --resume" (by decide) rfl
  cases h

/-- The command line of a built-in template, or of one of quoted placeholders outside quotes,
has the words of the template with the values as they are. -/
def CarriesData (template : String) (session : ResumeSession) (dir : String) : Prop :=
  commandWords (expandResumeTemplate template session dir) = templateWords template session dir

/-- Where no value contains a placeholder that is replaced after it, the values of a built-in
template, and of every template of quoted placeholders outside quotes, come out as they are
exactly if a session id that is inserted without quotes is a plain word. -/
theorem resume_values_are_data_iff {inPath : String → Bool} {template : String}
    {session : ResumeSession} {dir : String}
    (hcovered : (∃ cmd remote, defaultResumeTemplate inPath cmd remote = some template) ∨
      ShellTemplate template.toList)
    (hflat : ValuesFlat session dir template.toList) :
    CarriesData template session dir ↔
      (nameOf .sessionId <:+: template.toList → PlainWord session.sessionId.toList) := by
  have hcases : ShellTemplate template.toList ∨
      ∃ before, BareTemplate before template.toList := by
    obtain ⟨cmd, remote, h⟩ | h := hcovered
    · exact defaultResumeTemplate_cases h
    · exact Or.inl h
  rw [CarriesData, commandWords, templateWords, toList_expandResumeTemplate]
  obtain hshell | ⟨before, hbare⟩ := hcases
  · rw [(hshell.run_eq hflat).1]
    refine iff_of_true rfl fun hinfix => ?_
    exact absurd (hshell.shell .sessionId (mem_replacementOrder _) hinfix) Bool.false_ne_true
  · obtain ⟨tokens, hrun, hpieces⟩ := hbare.run_blank hflat
    have hinfix : nameOf .sessionId <:+: template.toList := by
      rw [hbare.spelled, List.append_cons]
      exact (List.suffix_append _ _).isInfix
    rw [hrun, hpieces, forall_prop_of_true hinfix]
    exact finish_run_eq_word_iff

/-- A session with a plain id, whose source path has a quote in it. -/
def plainSession : ResumeSession where
  source := "claude"
  sessionId := "abc-123"
  project := "memex"
  sourcePath := "/logs/it's.jsonl"
  sourceDir := "/logs"

/-- A plain id, and a directory with blanks and quotes in its name. -/
theorem resume_values_are_data_plain :
    CarriesData "cd \x7bcwd_shell\x7d && claude --resume \x7bsession_id\x7d" plainSession
      "/it's $(a) \x7bproject\x7d" := by
  refine (@resume_values_are_data_iff (fun _ => true) _ _ _ (Or.inl ⟨"claude", true, rfl⟩)
    ?_).mpr fun _ => ⟨by decide, List.all_eq_true.mp (by decide), ?_⟩
  · simp only [ValuesFlat, NoneNested, String.reduceToList]
    decide +kernel
  · intro symbol hhead
    cases hhead
    decide

/-- A session id that ends a command and begins another one, and a source path that names the
placeholder of the directory, whose value then stands between the quotes of the path. -/
theorem session_id_and_nested_name_are_run :
    ¬ CarriesData "codex resume \x7bsession_id\x7d" { plainSession with sessionId := "x;id" }
      "/work" ∧
    ¬ CarriesData "pi --session \x7bsource_path_shell\x7d"
      { plainSession with sourcePath := "/logs/\x7bcwd\x7d" } "'$(id)'" := by
  simp only [CarriesData, commandWords, templateWords, toList_expandResumeTemplate, plainSession,
    String.reduceToList]
  decide +kernel

end BuiltIn

end Memex.Resume
