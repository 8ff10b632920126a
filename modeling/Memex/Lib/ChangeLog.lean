import Mathlib.Data.List.Basic

/-! # Copies kept up to date through a log of changes

A store logs which of its keys change. A reader remembers a cursor into the log and copies the
views of keys. A copy may be trusted when the cursor still belongs to the log and no entry behind
it names the key. -/

/-- What a reader learns from a store: whether a cursor belongs to its log, which keys the
entries behind a cursor name, and the view of a key that is there. -/
structure ChangeLog (Content Cursor Key View : Type*) where
  valid : Cursor → Content → Prop
  behind : Cursor → Content → Key → Prop
  view : Content → Key → Option View

namespace ChangeLog

variable {Content Cursor Key View : Type*} (log : ChangeLog Content Cursor Key View)

/-- A write that leaves the cursor valid found it valid, keeps the entries behind it, and has an
entry for each key whose view it changes. -/
def Keeps (cursor : Cursor) (content next : Content) : Prop :=
  log.valid cursor next →
    log.valid cursor content ∧
      (∀ key, log.behind cursor content key → log.behind cursor next key) ∧
      ∀ key, log.view next key ≠ none → log.view next key ≠ log.view content key →
        log.behind cursor next key

/-- A copy is the view of a key, or a reader with this cursor will not trust it. -/
def Tracks (cursor : Cursor) (content : Content) (key : Key) (copy : View) : Prop :=
  log.valid cursor content →
    log.behind cursor content key ∨ ∀ view, log.view content key = some view → view = copy

variable {log} {cursor : Cursor} {content next : Content} {key : Key} {copy : View}

theorem tracks_of_view (h : ∀ view, log.view content key = some view → view = copy) :
    log.Tracks cursor content key copy :=
  fun _ => .inr h

/-- Writes that keep the log do not make a reader trust an outdated copy. -/
theorem Tracks.keeps (h : log.Tracks cursor content key copy)
    (hkeeps : log.Keeps cursor content next) : log.Tracks cursor next key copy := by
  intro hnext
  obtain ⟨hvalid, hbehind, hchanged⟩ := hkeeps hnext
  rcases h hvalid with hlogged | hview
  · exact .inl (hbehind key hlogged)
  · by_cases hsame : log.view next key = log.view content key
    · right
      rw [hsame]
      exact hview
    · cases hgone : log.view next key with
      | none =>
          right
          intro view heq
          cases heq
      | some view =>
          left
          apply hchanged key
          · rw [hgone]
            exact Option.some_ne_none view
          · exact hsame

/-- A copy that a reader trusts is the view of its key. -/
theorem Tracks.trusted (h : log.Tracks cursor content key copy) (hvalid : log.valid cursor content)
    (hbehind : ¬ log.behind cursor content key) {view : View}
    (hview : log.view content key = some view) : view = copy := by
  rcases h hvalid with hlogged | hsame
  · exact absurd hlogged hbehind
  · exact hsame view hview

/-- A chain of writes that keep the log. -/
theorem Tracks.keepsAll {writes : List Content} (h : log.Tracks cursor content key copy)
    (hkeeps : List.IsChain (log.Keeps cursor) (content :: writes)) :
    log.Tracks cursor (writes.getLastD content) key copy := by
  induction writes generalizing content with
  | nil => exact h
  | cons next rest ih =>
      obtain ⟨hnext, hrest⟩ := List.isChain_cons_cons.mp hkeeps
      rw [List.getLastD_cons]
      exact ih (h.keeps hnext) hrest

end ChangeLog
