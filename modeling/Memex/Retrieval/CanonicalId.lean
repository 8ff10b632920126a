import Memex.Lib.LatestByKey
import Memex.Sources.Json

/-! # Canonical record ids

`retrieval.rs`: the id of a record is a digest of its identity. Records of one id are copies of
each other, of which the latest projection is kept. -/

namespace Memex

/-- `storage_label`. -/
def SourceKind.storageLabel : SourceKind → String
  | claude => "claude"
  | codex => "codex"
  | opencode => "opencode"
  | cursor => "cursor"
  | pi => "pi"
  | openClaw => "openclaw"
  | copilot => "copilot"
  | omp => "omp"
  | grok => "grok"
  | hermes => "hermes"
  | jcode => "jcode"
  | muse => "muse"
  | antigravity => "antigravity"
  | bob => "bob"

namespace Retrieval

open LineStream

/-- A field of an identity: its label and its value. -/
abbrev Field := String × String

def canonicalRecordIdVersion : String := "rid1"

/-- What the digest of a record is taken of. An event keeps its identity when its record moves or
is parsed better; a record without one is told by its place. -/
def identity (record : Record) : List Field :=
  [("version", canonicalRecordIdVersion), ("source", record.source.storageLabel)] ++
    (match record.links.sourceRecordOffset with
      | some offset =>
          [("session", record.sessionId), ("source-path", record.sourcePath),
            ("source-record-offset", toString offset)]
      | none =>
          if record.links.eventId.isSome ||
              (record.role = "tool_use" && record.links.sourceToolUseId.isSome) then
            [("session", if record.sessionId = "" then record.sourcePath else record.sessionId)] ++
              (match record.links.eventId with
                | some eventId => [("event", eventId)]
                | none => (record.links.sourceToolUseId.map (("source-tool-use", ·))).toList)
          else
            [("session", record.sessionId), ("source-path", record.sourcePath),
              ("turn", toString (record.links.legacyTurnId.getD record.turnId))]) ++
    [("role", record.role), ("tool", record.toolName.getD "")]

/-- The lowest bytes of a number, the low ones first. -/
def littleEndian : Nat → Nat → Bytes
  | 0, _ => []
  | width + 1, value => UInt8.ofNat value :: littleEndian width (value / 256)

def utf8 (text : String) : Bytes :=
  text.toUTF8.data.toList

/-- A text behind its length. -/
def hashText (text : String) : Bytes :=
  littleEndian 8 text.utf8ByteSize ++ utf8 text

/-- `hash_field`. -/
def hashField (field : Field) : Bytes :=
  hashText field.1 ++ hashText field.2

/-- `canonical_record_id`, over the hexadecimal digest of bytes. -/
def canonicalRecordId (digest : Bytes → String) (record : Record) : String :=
  canonicalRecordIdVersion ++ "_" ++ digest ((identity record).flatMap hashField)

/-- `projection_order`. -/
def projectionOrder (left right : Record) : Ordering :=
  (compare left.ts right.ts).then
    ((compare left.turnId right.turnId).then (compare left.docId right.docId))

/-- `record_order`. -/
def recordOrder (digest : Bytes → String) (left right : Record) : Ordering :=
  (compare left.turnId right.turnId).then
    ((compare left.ts right.ts).then
      ((compare left.docId right.docId).then
        (compare (canonicalRecordId digest left) (canonicalRecordId digest right))))

/-- `deduplicate_records`. -/
def deduplicateRecords (digest : Bytes → String) (records : List Record) : List Record :=
  LatestByKey.sorted (recordOrder digest)
    (LatestByKey.latest (canonicalRecordId digest) projectionOrder records)

/-- No record of a list is dropped for a copy exactly when no two have the same id. -/
theorem deduplicateRecords_perm_iff (digest : Bytes → String) (records : List Record) :
    (deduplicateRecords digest records).Perm records ↔
      (records.map (canonicalRecordId digest)).Nodup := by
  rw [← LatestByKey.latest_perm_iff]
  constructor
  · exact LatestByKey.sorted_perm.symm.trans
  · exact LatestByKey.sorted_perm.trans

/-! ## Different identities have different bytes -/

theorem length_littleEndian (width value : Nat) : (littleEndian width value).length = width := by
  induction width generalizing value with
  | zero => rfl
  | succ width ih => rw [littleEndian, List.length_cons, ih]

theorem littleEndian_inj {width left right : Nat} (hleft : left < 256 ^ width)
    (hright : right < 256 ^ width) (h : littleEndian width left = littleEndian width right) :
    left = right := by
  induction width generalizing left right with
  | zero =>
      rw [Nat.pow_zero] at hleft hright
      omega
  | succ width ih =>
      obtain ⟨hbyte, hrest⟩ := List.cons.inj h
      have hlow : left % 256 = right % 256 := by
        have hnat := congrArg UInt8.toNat hbyte
        simpa using hnat
      rw [Nat.pow_succ] at hleft hright
      have hhigh := ih (by omega) (by omega) hrest
      omega

theorem utf8_inj {left right : String} (h : utf8 left = utf8 right) : left = right := by
  apply String.toByteArray_inj.mp
  apply ByteArray.ext
  exact Array.toList_inj.mp h

theorem length_utf8 (text : String) : (utf8 text).length = text.utf8ByteSize := rfl

theorem hashText_append_inj {left right : String} {more more' : Bytes}
    (hleft : left.utf8ByteSize < 2 ^ 64) (hright : right.utf8ByteSize < 2 ^ 64)
    (h : hashText left ++ more = hashText right ++ more') : left = right ∧ more = more' := by
  rw [hashText, hashText, List.append_assoc, List.append_assoc] at h
  have hwidth : (littleEndian 8 left.utf8ByteSize).length =
      (littleEndian 8 right.utf8ByteSize).length := by
    rw [length_littleEndian, length_littleEndian]
  obtain ⟨hsize, hrest⟩ := List.append_inj h hwidth
  have hbytes : left.utf8ByteSize = right.utf8ByteSize := littleEndian_inj hleft hright hsize
  obtain ⟨htext, hmore⟩ := List.append_inj hrest (by rw [length_utf8, length_utf8, hbytes])
  exact ⟨utf8_inj htext, hmore⟩

/-- A field as memory can hold it. -/
def Fits (field : Field) : Prop :=
  field.1.utf8ByteSize < 2 ^ 64 ∧ field.2.utf8ByteSize < 2 ^ 64

instance (field : Field) : Decidable (Fits field) :=
  inferInstanceAs (Decidable (_ ∧ _))

theorem hashText_ne_nil (text : String) : hashText text ≠ [] := by
  intro h
  have hlength := congrArg List.length h
  rw [hashText, List.length_append, length_littleEndian] at hlength
  simp at hlength

theorem hashField_ne_nil (field : Field) (more : Bytes) : hashField field ++ more ≠ [] := by
  intro h
  rw [hashField, List.append_assoc] at h
  exact hashText_ne_nil _ (List.append_eq_nil_iff.mp h).1

theorem hashFields_inj {left right : List Field} (hleft : ∀ field ∈ left, Fits field)
    (hright : ∀ field ∈ right, Fits field)
    (h : left.flatMap hashField = right.flatMap hashField) : left = right := by
  induction left generalizing right with
  | nil =>
      cases right with
      | nil => rfl
      | cons field rest => exact absurd h.symm (hashField_ne_nil field _)
  | cons field rest ih =>
      cases right with
      | nil => exact absurd h (hashField_ne_nil field _)
      | cons field' rest' =>
          rw [List.flatMap_cons, List.flatMap_cons, hashField, hashField, List.append_assoc,
            List.append_assoc] at h
          obtain ⟨hfirst, hrest⟩ := List.forall_mem_cons.mp hleft
          obtain ⟨hfirst', hrest'⟩ := List.forall_mem_cons.mp hright
          obtain ⟨hlabel, h⟩ := hashText_append_inj hfirst.1 hfirst'.1 h
          obtain ⟨hvalue, h⟩ := hashText_append_inj hfirst.2 hfirst'.2 h
          rw [ih hrest hrest' h, Prod.ext hlabel hvalue]

/-- The digest tells the identities of the records apart: their texts fit into memory, and it has
no collision among them. -/
structure DigestSeparates (digest : Bytes → String) (records : List Record) : Prop where
  fits : ∀ record ∈ records, ∀ field ∈ identity record, Fits field
  collisionFree : ∀ left ∈ records, ∀ right ∈ records,
    digest ((identity left).flatMap hashField) = digest ((identity right).flatMap hashField) →
      (identity left).flatMap hashField = (identity right).flatMap hashField

theorem canonicalRecordId_congr (digest : Bytes → String) {left right : Record}
    (h : identity left = identity right) :
    canonicalRecordId digest left = canonicalRecordId digest right := by
  rw [canonicalRecordId, h]
  rfl

theorem DigestSeparates.identity_eq {digest : Bytes → String} {records : List Record}
    (h : DigestSeparates digest records) {left right : Record} (hleft : left ∈ records)
    (hright : right ∈ records)
    (hid : canonicalRecordId digest left = canonicalRecordId digest right) :
    identity left = identity right := by
  apply hashFields_inj (h.fits left hleft) (h.fits right hright)
  apply h.collisionFree left hleft right hright
  have hlists := congrArg String.toList hid
  simp only [canonicalRecordId, String.toList_append, List.append_cancel_left_eq] at hlists
  exact String.toList_injective hlists

/-- An id is a function of the identity. -/
theorem nodup_identities_of_nodup_ids {digest : Bytes → String} {records : List Record}
    (h : (records.map (canonicalRecordId digest)).Nodup) : (records.map identity).Nodup := by
  have hids : records.map (canonicalRecordId digest) = (records.map identity).map fun fields =>
      canonicalRecordIdVersion ++ "_" ++ digest (fields.flatMap hashField) := by
    rw [List.map_map]
    rfl
  rw [hids] at h
  exact h.of_map

/-- The ids are different exactly when the identities are. -/
theorem DigestSeparates.nodup_iff {digest : Bytes → String} {records : List Record}
    (h : DigestSeparates digest records) :
    (records.map (canonicalRecordId digest)).Nodup ↔ (records.map identity).Nodup := by
  rw [List.Nodup, List.Nodup, List.pairwise_map, List.pairwise_map]
  apply List.Pairwise.iff_of_mem
  intro left right hleft hright
  apply not_congr
  constructor
  · exact h.identity_eq hleft hright
  · exact canonicalRecordId_congr digest

end Retrieval

end Memex
