import Mathlib.Data.Nat.Basic

/-! # Indexed records

The record of `types.rs` that every source parser emits and the index stores. -/

namespace Memex

/-- The agent whose transcript a record comes from. -/
inductive SourceKind where
  | claude
  | codex
  | opencode
  | cursor
  | pi
  | openClaw
  | copilot
  | omp
  | grok
  | hermes
  | jcode
  | muse
  | antigravity
  | bob
  deriving DecidableEq, Repr, Inhabited

/-- Provider identities and relations of a record. -/
structure RecordLinks where
  legacyTurnId : Option Nat := none
  sourceRecordOffset : Option Nat := none
  sourceTurnId : Option String := none
  assistantPhase : Option String := none
  lifecycleEvent : Option String := none
  sourceRecordType : Option String := none
  sourceContent : Option String := none
  toolResultIsError : Option Bool := none
  eventId : Option String := none
  parentEventId : Option String := none
  logicalParentEventId : Option String := none
  parentSessionId : Option String := none
  threadSource : Option String := none
  conversationKind : Option String := none
  parentToolUseId : Option String := none
  sourceToolUseId : Option String := none
  sourceToolAssistantUuid : Option String := none
  deriving DecidableEq, Repr, Inhabited

/-- One indexed record. Parsers leave `docId` at zero; it is assigned from the
shared counter when the record is emitted. -/
structure Record where
  source : SourceKind := .claude
  docId : Nat := 0
  ts : Nat := 0
  project : String := ""
  sessionId : String := ""
  turnId : Nat := 0
  role : String := ""
  text : String := ""
  toolName : Option String := none
  toolInput : Option String := none
  toolOutput : Option String := none
  links : RecordLinks := {}
  sourcePath : String := ""
  deriving DecidableEq, Repr, Inhabited

namespace Record

/-- The record without its document id. -/
def body (record : Record) : Record :=
  { record with docId := 0 }

@[simp] theorem body_sourcePath (record : Record) : record.body.sourcePath = record.sourcePath :=
  rfl

@[simp] theorem body_sessionId (record : Record) : record.body.sessionId = record.sessionId := rfl

@[simp] theorem body_docId (record : Record) (docId : Nat) :
    ({ record with docId } : Record).body = record.body := rfl

/-- `is_embedding_role`: only the conversation itself is embedded. -/
def isEmbeddingRole (role : String) : Bool :=
  role == "user" || role == "assistant"

/-- `record_needs_embedding`. -/
def needsEmbedding (record : Record) : Bool :=
  isEmbeddingRole record.role && record.text ≠ ""

end Record

end Memex
