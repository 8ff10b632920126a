import Memex.Sources.Jsonl

/-! # Emitting records

What the JSONL parsers carry from row to row: the next turn id and the tool
calls whose results are outstanding. A row drafts records; the header of the
run is stamped on them. Two runs carry the same when turn ids and the names of
the outstanding calls agree, which is all a draft ever reads. -/

namespace Memex.Sources

open Overlay State LineStream

/-- The part of a parser's state that is handed to the next run. -/
structure Carried where
  turnId : Nat := 0
  pendingToolCalls : Table String PendingToolCall := ∅
  deriving DecidableEq

/-- What a row leaves behind and the records it drafted. -/
abbrev Drafted := Carried × List Record

namespace Carried

/-- Draft one record under the next turn id. -/
def emit (carried : Carried) (draft : Record) : Drafted :=
  ({ carried with turnId := succU32 carried.turnId }, [{ draft with turnId := carried.turnId }])

/-- A row that drafts nothing. -/
def silent (carried : Carried) : Drafted :=
  (carried, [])

/-- A draft, unless the text it stands for is blank. -/
def emitText (carried : Carried) (text : String) (draft : Record) : Drafted :=
  if isBlankText text then carried.silent else carried.emit draft

def insertCall (carried : Carried) (callId : String) (call : PendingToolCall) : Carried :=
  { carried with pendingToolCalls := carried.pendingToolCalls.insert callId call }

def removeCall (carried : Carried) (callId : String) : Carried :=
  { carried with pendingToolCalls := carried.pendingToolCalls.erase callId }

/-- The tool name of an outstanding call. -/
def pendingToolName (carried : Carried) (callId : String) : Option String :=
  (carried.pendingToolCalls.lookup callId).bind PendingToolCall.toolName

/-- Equal turn ids, and calls of the same names outstanding. -/
def Same (left right : Carried) : Prop :=
  left.turnId = right.turnId ∧
    ∀ callId, left.pendingToolName callId = right.pendingToolName callId

theorem Same.refl (carried : Carried) : Same carried carried :=
  ⟨rfl, fun _ => rfl⟩

theorem Same.pendingToolName_eq {left right : Carried} (h : Same left right) :
    left.pendingToolName = right.pendingToolName :=
  funext h.2

theorem Same.insertCall {left right : Carried} (h : Same left right) (callId : String)
    {call call' : PendingToolCall} (hname : call.toolName = call'.toolName) :
    Same (left.insertCall callId call) (right.insertCall callId call') := by
  refine ⟨h.1, fun other => ?_⟩
  have hother := h.2 other
  simp only [pendingToolName, Carried.insertCall] at hother ⊢
  by_cases heq : other = callId
  · subst heq
    simp [hname]
  · rw [Finmap.lookup_insert_of_ne _ heq, Finmap.lookup_insert_of_ne _ heq, hother]

theorem Same.removeCall {left right : Carried} (h : Same left right) (callId : String) :
    Same (left.removeCall callId) (right.removeCall callId) := by
  refine ⟨h.1, fun other => ?_⟩
  have hother := h.2 other
  simp only [pendingToolName, Carried.removeCall] at hother ⊢
  by_cases heq : other = callId
  · subst heq
    simp
  · rw [Finmap.lookup_erase_ne heq, Finmap.lookup_erase_ne heq, hother]

end Carried

/-- Two rows that leave the same behind and draft equally many records; under a
condition the records are the same. -/
structure SameDrafts (condition : Prop) (left right : Drafted) : Prop where
  carried : Carried.Same left.1 right.1
  length : left.2.length = right.2.length
  drafts : condition → left.2 = right.2

variable {condition : Prop}

theorem Carried.Same.silent {left right : Carried} (h : Carried.Same left right) :
    SameDrafts condition left.silent right.silent :=
  ⟨h, rfl, fun _ => rfl⟩

theorem Carried.Same.emit {left right : Carried} (h : Carried.Same left right)
    {draft draft' : Record} (hdraft : condition → draft = draft') :
    SameDrafts condition (left.emit draft) (right.emit draft') := by
  obtain ⟨hturn, hnames⟩ := h
  refine ⟨⟨congrArg succU32 hturn, hnames⟩, rfl, ?_⟩
  intro hcondition
  simp [Carried.emit, hturn, hdraft hcondition]

theorem Carried.Same.emitText {left right : Carried} (h : Carried.Same left right)
    (text : String) {draft draft' : Record} (hdraft : condition → draft = draft') :
    SameDrafts condition (left.emitText text draft) (right.emitText text draft') := by
  simp only [Carried.emitText]
  split
  · exact h.silent
  · exact h.emit hdraft

theorem Carried.emitText_eq_nil (carried : Carried) (text : String) (draft : Record) :
    (carried.emitText text draft).2 = [] ↔ (!isBlankText text) = false := by
  simp only [Carried.emitText]
  split
  · simp [Carried.silent, *]
  · simp [Carried.emit, *]

/-- Two stages in a row draft the same when each of them does. -/
theorem SameDrafts.append {first first' second second' : Drafted}
    (hfirst : SameDrafts condition first first') (hsecond : SameDrafts condition second second') :
    SameDrafts condition (second.1, first.2 ++ second.2) (second'.1, first'.2 ++ second'.2) where
  carried := hsecond.carried
  length := by
    simp only [List.length_append]
    exact congrArg₂ (· + ·) hfirst.length hsecond.length
  drafts hcondition := congrArg₂ (· ++ ·) (hfirst.drafts hcondition) (hsecond.drafts hcondition)

/-- Items handled one after another draft the same when each of them does. -/
theorem SameDrafts.run {α : Type*} {step step' : Carried → α → Drafted}
    (hstep : ∀ left right item, Carried.Same left right →
      SameDrafts condition (step left item) (step' right item))
    {left right : Carried} (h : Carried.Same left right) (items : List α) :
    SameDrafts condition (HeaderMachine.run step left items)
      (HeaderMachine.run step' right items) := by
  induction items generalizing left right with
  | nil => exact h.silent
  | cons item rest ih =>
      have hitem := hstep left right item h
      exact hitem.append (ih hitem.carried)

/-- Items draft nothing exactly when none of them does. -/
theorem run_drafts_eq_nil {α : Type*} (step : Carried → α → Drafted) (emits : α → Bool)
    (hstep : ∀ carried item, (step carried item).2 = [] ↔ emits item = false)
    (carried : Carried) (items : List α) :
    (HeaderMachine.run step carried items).2 = [] ↔ items.any emits = false := by
  induction items generalizing carried with
  | nil => simp
  | cons item rest ih =>
      simp only [HeaderMachine.run_cons, List.append_eq_nil_iff, hstep, ih, List.any_cons,
        Bool.or_eq_false_iff]

/-- What is in force behind rows for a field that some rows set. -/
def inForce {V β : Type*} (rule : V → Option β) (fallback : β) (rows : List (Nat × V)) : β :=
  (HeaderMachine.lastSet (fun row => rule row.2) rows).getD fallback

/-- Two runs that start from different values of a field agree on it behind a row that
does not set it exactly when an earlier row has, or they started from the same. -/
theorem lastSet_getD_eq_iff {α β : Type*} (rule : α → Option β) (since : List α)
    {row : α} (hrow : rule row = none) (left right : β) :
    (HeaderMachine.lastSet rule (since ++ [row])).getD left =
        (HeaderMachine.lastSet rule (since ++ [row])).getD right ↔
      (HeaderMachine.lastSet rule since = none → left = right) := by
  rw [HeaderMachine.lastSet_append, HeaderMachine.lastSet_singleton, hrow, Option.none_or]
  cases HeaderMachine.lastSet rule since with
  | none => simp
  | some value => simp

/-- The header of a run as its records quote it. -/
structure Stamp where
  source : SourceKind
  ts : Nat
  project : String
  sessionId : String
  sourcePath : String
  deriving DecidableEq

def Stamp.apply (stamp : Stamp) (draft : Record) : Record :=
  { draft with
    source := stamp.source
    ts := stamp.ts
    project := stamp.project
    sessionId := stamp.sessionId
    sourcePath := stamp.sourcePath }

theorem Stamp.apply_injective {left right : Stamp} {draft draft' : Record}
    (h : left.apply draft = right.apply draft') : left = right := by
  obtain ⟨source, ts, project, sessionId, sourcePath⟩ := left
  obtain ⟨source', ts', project', sessionId', sourcePath'⟩ := right
  simp only [Stamp.apply, Record.mk.injEq] at h
  obtain ⟨rfl, -, rfl, rfl, rfl, -, -, -, -, -, -, -, rfl⟩ := h
  rfl

/-- How a source turns rows into records: what a row does to the header, the stamp
its records get under a header, the records it drafts and whether it drafts any. -/
structure RowDrafts (V H : Type*) where
  advance : H → V → H
  stamp : H → V → Stamp
  drafts : Stamp → Carried → V → Drafted
  emits : V → Bool
  drafts_same : ∀ stamp stamp' carried carried' value, Carried.Same carried carried' →
    SameDrafts (stamp = stamp') (drafts stamp carried value) (drafts stamp' carried' value)
  drafts_eq_nil : ∀ stamp carried value, (drafts stamp carried value).2 = [] ↔ emits value = false

namespace RowDrafts

variable {V H : Type*} (rows : RowDrafts V H)

/-- The records of one row under a header. -/
def records (header : H) (carried : Carried) (input : Nat × V) : Carried × List Record :=
  let stamp := rows.stamp header input.2
  let drafted := rows.drafts stamp carried input.2
  (drafted.1, drafted.2.map stamp.apply)

theorem records_eq_iff (header other : H) {carried carried' : Carried} (input : Nat × V)
    (h : Carried.Same carried carried') :
    (rows.records header carried input).2 = (rows.records other carried' input).2 ↔
      (rows.emits input.2 = true → rows.stamp header input.2 = rows.stamp other input.2) := by
  have hsame := rows.drafts_same (rows.stamp header input.2) (rows.stamp other input.2)
    carried carried' input.2 h
  have hnil := rows.drafts_eq_nil (rows.stamp header input.2) carried input.2
  simp only [records]
  generalize rows.drafts (rows.stamp header input.2) carried input.2 = left at hsame hnil ⊢
  generalize rows.drafts (rows.stamp other input.2) carried' input.2 = right at hsame ⊢
  obtain ⟨-, hlength, hdrafts⟩ := hsame
  obtain ⟨leftCarried, leftDrafts⟩ := left
  obtain ⟨rightCarried, rightDrafts⟩ := right
  dsimp only at hlength hdrafts hnil ⊢
  constructor
  · intro heq hemits
    cases leftDrafts with
    | nil => simp [hemits] at hnil
    | cons draft rest =>
        cases rightDrafts with
        | nil => simp at heq
        | cons draft' rest' => exact Stamp.apply_injective (List.cons.inj heq).1
  · intro hstamps
    cases hemits : rows.emits input.2 with
    | true =>
        have hstamp := hstamps hemits
        rw [hdrafts hstamp, hstamp]
    | false =>
        have hleft := hnil.mpr hemits
        subst hleft
        have hright : rightDrafts = [] := List.length_eq_zero_iff.mp hlength.symm
        subst hright
        rfl

/-- The row machine of a source. Two headers agree for a row when its records
would get the same stamp, or it has none. -/
def machine : HeaderMachine (Nat × V) H Carried Record where
  advance header input := rows.advance header input.2
  row := rows.records
  agree input header other :=
    rows.emits input.2 = true → rows.stamp header input.2 = rows.stamp other input.2
  same := Carried.Same
  same_refl := Carried.Same.refl
  row_same header other carried carried' input h :=
    (rows.drafts_same (rows.stamp header input.2) (rows.stamp other input.2) carried carried'
      input.2 h).carried
  row_length header other carried carried' input h := by
    have hsame := rows.drafts_same (rows.stamp header input.2) (rows.stamp other input.2)
      carried carried' input.2 h
    simpa [records] using hsame.length
  row_eq_iff header other carried carried' input h := rows.records_eq_iff header other input h

end RowDrafts

end Memex.Sources
