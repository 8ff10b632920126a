import Memex.Ingest.SessionOwnership

/-! # Interrupted refreshes

A refresh that does not return keeps the stored databases and rows. Either it has touched
nothing, or its intent names every scope and path that it may have touched. -/

namespace Memex.Ingest

open Overlay State Sources

/-- What an interrupted refresh leaves behind. -/
structure Interrupted (inputs : RefreshInputs) (durable final : Durable) : Prop where
  databases : final.checkpoint.opencodeDatabases = durable.checkpoint.opencodeDatabases
  files : final.checkpoint.files = durable.checkpoint.files
  intent :
    (final.checkpoint.pending = durable.checkpoint.pending ∧
      ∀ scope, ¬ inputs.Backs scope.sourcePath →
        scopeRecords final.lexical scope = scopeRecords durable.lexical scope) ∨
    ∃ prepared databases scan intent, OpencodePlan inputs durable prepared databases scan ∧
      final.checkpoint.pending = some intent ∧
      intent.sessionScopes = prepared.opencodeScopeTargets ∪ prepared.deferredPendingScopes ∧
      intent.sourcePaths = affectedPaths prepared ∧
      ∀ scope, ¬ inputs.Backs scope.sourcePath →
        scopeRecords final.lexical scope = scopeRecords durable.lexical scope ∨
          ScopePublished durable prepared scope final.lexical

theorem Interrupted.untouched {inputs : RefreshInputs} {durable final : Durable}
    (hcheckpoint : final.checkpoint = durable.checkpoint)
    (hlexical : final.lexical = durable.lexical) : Interrupted inputs durable final where
  databases := by rw [hcheckpoint]
  files := by rw [hcheckpoint]
  intent := .inl ⟨by rw [hcheckpoint], fun scope _ => by rw [hlexical]⟩

section Execution

variable {crates : Crates} {views : String → DatabaseView} {inputs : RefreshInputs}
  {durable final : Durable} {prepared : PreparedRefresh} {databases : List String}
  {scan : OpencodeScan}

/-- The intent is durable and the lexical generation is the old or the new one. -/
theorem OpencodePlan.interrupted (h : OpencodePlan inputs durable prepared databases scan)
    (hreads : ReadsDatabases crates views inputs)
    (hstart : StartsReserved prepared (recoverCheckpoint durable).1)
    (hcheckpoint : final.checkpoint = (intendedDurable prepared inputs.options inputs.execution
      (recoverCheckpoint durable).1).checkpoint)
    (hlexical : final.lexical = durable.lexical ∨ final.lexical =
      publishedLexical prepared inputs.options inputs.execution (recoverCheckpoint durable).1) :
    Interrupted inputs durable final := by
  obtain ⟨hrecovered, hindexed, -⟩ := recoverCheckpoint_frame durable
  rw [intendedDurable, (intendedSession_store inputs.options inputs.execution hstart).1,
    hrecovered] at hcheckpoint
  have hrecords (scope : SessionScope) (hbacked : ¬ inputs.Backs scope.sourcePath) :
      scopeRecords final.lexical scope = scopeRecords durable.lexical scope ∨
        ScopePublished durable prepared scope final.lexical := by
    rcases hlexical with hkept | hpublished
    · exact .inl (by rw [hkept])
    · right
      rw [hpublished, publishedLexical_eq, hindexed]
      exact h.scopePublished hreads hbacked _ _
  cases hneeds : needsPublication prepared inputs.options inputs.execution
      (recoverCheckpoint durable).1 with
  | true =>
      rw [if_pos hneeds] at hcheckpoint
      constructor
      · rw [hcheckpoint]
      · rw [hcheckpoint]
      · refine .inr ⟨prepared, databases, scan,
          pendingIngest prepared inputs.options inputs.execution (recoverCheckpoint durable).1, h,
          ?_, rfl, rfl, hrecords⟩
        rw [hcheckpoint]
  | false =>
      rw [if_neg (by simp [hneeds])] at hcheckpoint
      have hidle : prepared.deletePaths = ∅ ∧ prepared.opencodeScopeTargets = ∅ := by
        simp only [needsPublication, Bool.or_eq_false_iff, decide_eq_false_iff_not, not_not]
          at hneeds
        exact ⟨hneeds.1.1.1.1.1, hneeds.1.1.1.1.2⟩
      constructor
      · rw [hcheckpoint]
      · rw [hcheckpoint]
      · refine .inl ⟨by rw [hcheckpoint], fun scope hbacked => ?_⟩
        rcases hrecords scope hbacked with hkept | hpublished
        · exact hkept
        · have hsame : ScopePublished durable prepared scope durable.lexical :=
            h.scopePublished_of_idle hreads hidle.1 hidle.2
          rw [ScopePublished] at hpublished hsame
          rw [hpublished, ← hsame]

/-- A refresh that does not return was interrupted somewhere. -/
theorem ingestSelected_interrupted (hreads : ReadsDatabases crates views inputs)
    (hfailed : (ingestSelected inputs durable).ok = false) :
    Interrupted inputs durable (ingestSelected inputs durable).durable := by
  obtain ⟨hcheckpoint, hlexical, -⟩ := recoverCheckpoint_frame durable
  cases hprepare : preparedRefresh inputs durable with
  | none =>
      obtain ⟨-, hsame, hkept⟩ := ingestSelected_aborted inputs durable hprepare
      exact .untouched hsame hkept
  | some prepared =>
      obtain ⟨databases, scan, hplan⟩ := prepareRefresh_plan hreads.once hprepare
      have hstart := prepareRefresh_startsReserved hprepare
      have hresult : ingestSelected inputs durable =
          executeRefresh prepared inputs.options inputs.execution (recoverCheckpoint durable).1
            inputs.stop := by
        rw [ingestSelected]
        dsimp only
        rw [preparedRefresh] at hprepare
        rw [hprepare]
      rw [hresult] at hfailed ⊢
      rw [executeRefresh] at hfailed ⊢
      split at hfailed
      · next hdecision =>
        rw [if_pos hdecision]
        rcases publishRefresh_cases prepared inputs.options inputs.execution
          (recoverCheckpoint durable).1 inputs.stop with heq | heq | ⟨heq, -⟩ | ⟨heq, -⟩ | ⟨heq, -⟩
        · rw [heq]
          exact .untouched hcheckpoint hlexical
        · rw [heq]
          exact hplan.interrupted hreads hstart rfl (.inl hlexical)
        · rw [heq]
          exact hplan.interrupted hreads hstart rfl (.inr rfl)
        · rw [heq]
          exact hplan.interrupted hreads hstart rfl (.inr rfl)
        · have hintended := intendedSession_store inputs.options inputs.execution hstart
          have hsame := finalSession_sameStore prepared inputs.execution
            (intendedSession prepared inputs.options inputs.execution
              (recoverCheckpoint durable).1)
          rw [heq, commitRefresh_ok _ _ _ _ _
            (by rw [hsame.1, hsame.2, hintended.2, hintended.1]; split <;> rfl)] at hfailed
          cases hfailed
      · next hdecision =>
        rw [if_neg hdecision]
        rw [commitCheckpointOnly] at hfailed ⊢
        split at hfailed
        · next hstop =>
          rw [if_pos hstop]
          exact .untouched hcheckpoint hlexical
        · next hstop =>
          have horiginal : ({ prepared.state with
              opencodeDatabases := prepared.installedOpencodeStates } :
                CheckpointSession).originalNextDocId = prepared.state.store.nextDocId :=
            hstart.original.trans (by rw [hstart.store])
          rw [commitRefresh_ok _ _ _ _ _ horiginal] at hfailed
          cases hfailed

end Execution

end Memex.Ingest
