import Memex.Mcp.OAuthAuthority

/-! # What each call keeps

The calls that make an event: exchanges, rotations and revocations keep the authority
invariant, and so does a whole run. -/

namespace Memex.Mcp

open OAuthEvent

variable {Hash : Type} {crates : OAuthCrates Hash} {server : OAuthServer}
  {readings : List Int} {trace : List OAuthEvent} {database : OAuthDatabase Hash}

/-! ## Revocations -/

/-- A grant is ended, and its tokens are deleted. -/
theorem Authority.revoked (h : Authority crates server readings trace database)
    {event : OAuthEvent} {grantId : String} (now : Int)
    (hevent : event = .replayed grantId ∨ event = .revoked grantId)
    (hissues : issuesOf trace grantId ≠ []) :
    Authority crates server readings (trace ++ [event]) (database.revokeGrant grantId now) := by
  have hends : ∀ id, Ends id trace event ↔ grantId = id := by
    obtain rfl | rfl := hevent <;> exact fun _ => Iff.rfl
  have hissue : ∀ id issue, event.issue? = some issue → issue.grantId ≠ id := by
    obtain rfl | rfl := hevent <;> exact fun _ _ hsome => by cases hsome
  have hexchange : ∀ exchange, event ≠ .exchanged exchange := by
    obtain rfl | rfl := hevent <;> exact fun _ hsome => by cases hsome
  have hrotated : ∀ presented issue, event ≠ .rotated presented issue := by
    obtain rfl | rfl := hevent <;> exact fun _ _ hsome => by cases hsome
  have hjustified : Justified crates server trace event := by
    obtain rfl | rfl := hevent <;> exact hissues
  have hexists : ∀ id, (∃ grant ∈ database.grants, grant.id = id) →
      ∃ grant ∈ (database.revokeGrant grantId now).grants, grant.id = id := by
    rintro id ⟨grant, hmem, rfl⟩
    refine ⟨_, List.mem_map_of_mem hmem, ?_⟩
    split <;> rfl
  refine ⟨Trace.always_concat.mpr ⟨h.justified, hjustified⟩, ⟨?_, ?_, ?_, ?_⟩, ⟨?_, ?_⟩⟩
  · exact fun row hrow => (h.stands.codes row hrow).concat
      fun exchange hsome => absurd hsome (hexchange exchange)
  · intro row hrow
    obtain ⟨old, hmem, rfl⟩ := List.mem_map.mp hrow
    have hold := h.stands.grants old hmem
    by_cases hsame : old.id = grantId
    · rw [if_pos hsame]
      obtain ⟨exchange, hexchanged, hbinding⟩ := hold.exchanged
      refine ⟨⟨exchange, List.mem_append_left _ hexchanged, hbinding⟩, ?_⟩
      rw [ended_concat, hends]
      simp [hsame]
    · rw [if_neg hsame]
      refine hold.concat ?_
      rw [hends]
      exact Ne.symm hsame
  · intro row hrow
    obtain ⟨hmem, hother⟩ := List.mem_filter.mp hrow
    obtain ⟨hstands, hgrant⟩ := h.stands.accessTokens row hmem
    refine ⟨hstands.concat ?_ (hissue _), hexists _ hgrant⟩
    rw [hends]
    rintro rfl
    simp at hother
  · intro row hrow
    obtain ⟨hmem, hother⟩ := List.mem_filter.mp hrow
    obtain ⟨hstands, hgrant⟩ := h.stands.refreshTokens row hmem
    refine ⟨hstands.concat ?_ fun _ _ hsome => absurd hsome (hrotated _ _), hexists _ hgrant⟩
    rw [hends]
    rintro rfl
    simp at hother
  · intro id issue hlatest
    rw [latestIssue_concat_of_ne (hissue id)] at hlatest
    rw [ended_concat, hends]
    by_cases hsame : grantId = id
    · exact Or.inl (Or.inr hsame)
    · refine (h.keeps.access id issue hlatest).imp Or.inl fun hrest => hrest.imp_right ?_
      rintro ⟨row, hrow, hhash, rfl, hexpires⟩
      exact ⟨row, List.mem_filter.mpr ⟨hrow, by simpa using Ne.symm hsame⟩, hhash, rfl, hexpires⟩
  · intro id issue hmem
    rw [issuesOf_concat_of_ne (hissue id)] at hmem
    rw [ended_concat, hends]
    by_cases hsame : grantId = id
    · exact Or.inl (Or.inr hsame)
    · refine (h.keeps.refresh id issue hmem).imp Or.inl fun hrest => hrest.imp_right ?_
      rintro ⟨row, hrow, hhash, rfl, hexpires⟩
      exact ⟨row, List.mem_filter.mpr ⟨hrow, by simpa using Ne.symm hsame⟩, hhash, rfl, hexpires⟩

theorem Authority.revokedAll (h : Authority crates server readings trace database) (now : Int) :
    Authority crates server readings (trace ++ [OAuthEvent.revokedAll])
      (revokeAll database now) := by
  have hissue : ∀ id issue, OAuthEvent.revokedAll.issue? = some issue → issue.grantId ≠ id :=
    fun _ _ hsome => by cases hsome
  refine ⟨Trace.always_concat.mpr ⟨h.justified, trivial⟩, ⟨?_, ?_, ?_, ?_⟩, ⟨?_, ?_⟩⟩
  · exact fun row hrow => absurd hrow List.not_mem_nil
  · intro row hrow
    obtain ⟨old, hmem, rfl⟩ := List.mem_map.mp hrow
    obtain ⟨exchange, hexchanged, hgrant, hbinding⟩ := (h.stands.grants old hmem).exchanged
    refine ⟨⟨exchange, List.mem_append_left _ hexchanged, hgrant, hbinding⟩, ?_⟩
    rw [ended_concat]
    have hends : Ends old.id trace .revokedAll := by
      rw [← hgrant]
      exact issuesOf_ne_nil_of_exchange hexchanged
    simp [hends]
  · exact fun row hrow => absurd hrow List.not_mem_nil
  · exact fun row hrow => absurd hrow List.not_mem_nil
  · intro id issue hlatest
    rw [latestIssue_concat_of_ne (hissue id)] at hlatest
    exact Or.inl (ended_concat.mpr (Or.inr (List.ne_nil_of_mem (latestIssue_mem hlatest))))
  · intro id issue hmem
    rw [issuesOf_concat_of_ne (hissue id)] at hmem
    exact Or.inl (ended_concat.mpr (Or.inr (List.ne_nil_of_mem hmem)))

/-- The family of a stored token is its grant alone. -/
theorem Authority.revokeFamily_eq (h : Authority crates server readings trace database)
    (hfresh : FreshTrace crates trace) {stored : RefreshToken Hash}
    (hstored : stored ∈ database.refreshTokens) (now : Int) :
    database.revokeFamily stored.familyId now = database.revokeGrant stored.grantId now := by
  obtain ⟨hstands, member, hmember, hmemberId⟩ := h.stands.refreshTokens stored hstored
  obtain ⟨exchange, hexchange, hgrant, hfamily, -⟩ := hstands.exchanged
  have hgrants : ∀ grant ∈ database.grants,
      (grant.familyId = stored.familyId ↔ grant.id = stored.grantId) := by
    intro grant hmem
    obtain ⟨other, hother, hotherGrant, hotherFamily, -⟩ := (h.stands.grants grant hmem).exchanged
    rw [← hgrant, ← hfamily, ← hotherGrant, ← hotherFamily]
    constructor
    · intro hsame
      rw [hfresh.exchange_eq hother hexchange (Or.inr hsame)]
    · intro hsame
      rw [hfresh.exchange_eq hother hexchange (Or.inl hsame)]
  have hmembers : ∀ grantId : String, (((database.grants.filter fun grant =>
      grant.familyId = stored.familyId).map OAuthGrant.id).contains grantId = true ↔
        grantId = stored.grantId) := by
    intro grantId
    simp only [List.contains_eq_mem, decide_eq_true_eq, List.mem_map, List.mem_filter]
    constructor
    · rintro ⟨grant, ⟨hmem, hsame⟩, rfl⟩
      exact (hgrants grant hmem).mp hsame
    · rintro rfl
      exact ⟨member, ⟨hmember, (hgrants member hmember).mpr hmemberId⟩, hmemberId⟩
  have hrefresh : ∀ row ∈ database.refreshTokens,
      (row.familyId = stored.familyId ↔ row.grantId = stored.grantId) := by
    intro row hmem
    obtain ⟨other, hother, hotherGrant, hotherFamily, -⟩ :=
      (h.stands.refreshTokens row hmem).1.exchanged
    rw [← hgrant, ← hfamily, ← hotherGrant, ← hotherFamily]
    constructor
    · intro hsame
      rw [hfresh.exchange_eq hother hexchange (Or.inr hsame)]
    · intro hsame
      rw [hfresh.exchange_eq hother hexchange (Or.inl hsame)]
  simp only [OAuthDatabase.revokeFamily, OAuthDatabase.revokeGrant, OAuthDatabase.mk.injEq,
    true_and]
  refine ⟨?_, ?_, ?_⟩
  · refine List.map_congr_left fun grant hmem => ?_
    rw [if_congr (hgrants grant hmem) rfl rfl]
  · refine List.filter_congr fun token _ => ?_
    rw [Bool.eq_iff_iff, Bool.not_eq_true', ← Bool.not_eq_true, hmembers]
    simp
  · refine List.filter_congr fun token hmem => ?_
    simp [hrefresh token hmem]

variable [DecidableEq Hash]

/-! ## Exchanges -/

/-- The rows an exchange adds for its grant. -/
structure ExchangeRows (crates : OAuthCrates Hash) (exchange : CodeExchange) (grant : OAuthGrant)
    (access : AccessToken Hash) (refresh : RefreshToken Hash) : Prop where
  grant_id : grant.id = exchange.issue.grantId
  grant_family : grant.familyId = exchange.familyId
  grant_client : grant.clientId = exchange.clientId
  grant_revoked : grant.revokedAt = none
  access_hash : access.tokenHash = crates.tokenHash exchange.issue.accessToken
  access_grant : access.grantId = exchange.issue.grantId
  access_expires : access.expiresAt = exchange.issue.issuedAt + accessTtlSeconds
  refresh_hash : refresh.tokenHash = crates.tokenHash exchange.issue.refreshToken
  refresh_grant : refresh.grantId = exchange.issue.grantId
  refresh_family : refresh.familyId = exchange.familyId
  refresh_client : refresh.clientId = exchange.clientId
  refresh_resource : refresh.resource = exchange.resource
  refresh_expires : refresh.expiresAt = exchange.issue.issuedAt + refreshTtlSeconds
  refresh_unused : refresh.usedAt = none

theorem Authority.exchanged (h : Authority crates server readings trace database)
    {exchange : CodeExchange} {grant : OAuthGrant} {access : AccessToken Hash}
    {refresh : RefreshToken Hash} {clients : List OAuthClient}
    (hfresh : FreshTrace crates (trace ++ [OAuthEvent.exchanged exchange]))
    (hjustified : JustifiesExchange crates server trace exchange)
    (hcode : ∃ row ∈ database.codes, row.codeHash = crates.tokenHash exchange.code)
    (hrows : ExchangeRows crates exchange grant access refresh) :
    Authority crates server readings (trace ++ [OAuthEvent.exchanged exchange])
      { clients
        codes := database.codes.filter fun other =>
          other.codeHash ≠ crates.tokenHash exchange.code
        grants := database.grants ++ [grant]
        accessTokens := database.accessTokens ++ [access]
        refreshTokens := database.refreshTokens ++ [refresh] } := by
  have hnil := issuesOf_eq_nil_of_fresh h.justified hfresh
  have hnotEnded : ¬ Ended trace exchange.issue.grantId := fun hended =>
    issuesOf_ne_nil_of_ended h.justified hended hnil
  have hended : ∀ grantId,
      Ended (trace ++ [OAuthEvent.exchanged exchange]) grantId ↔ Ended trace grantId :=
    fun grantId => by
      rw [ended_concat]
      exact or_iff_left id
  have hnew : ∀ issue, (OAuthEvent.exchanged exchange).issue? = some issue →
      issue = exchange.issue := fun issue hsome => (Option.some.inj hsome).symm
  -- rows of the tables belong to other grants
  have hother : ∀ grantId, (∃ other ∈ database.grants, other.id = grantId) →
      grantId ≠ exchange.issue.grantId := by
    rintro grantId ⟨other, hmem, rfl⟩ hsame
    obtain ⟨earlier, hearlier, hgrant, -⟩ := (h.stands.grants other hmem).exchanged
    rw [← hsame, ← hgrant] at hnil
    exact issuesOf_ne_nil_of_exchange hearlier hnil
  have hunrotated : ¬ RotatedHash crates (trace ++ [OAuthEvent.exchanged exchange])
      (crates.tokenHash exchange.issue.refreshToken) := by
    rw [rotatedHash_concat]
    rintro (hrotated | ⟨presented, issue, hevent, -⟩)
    · obtain ⟨grantId, earlier, hearlier, hhash⟩ := exists_issue_of_rotated h.justified hrotated
      exact refreshHash_ne_of_fresh hfresh rfl grantId earlier hearlier hhash
    · cases hevent
  refine ⟨Trace.always_concat.mpr ⟨h.justified, hjustified, ?_⟩, ⟨?_, ?_, ?_, ?_⟩, ⟨?_, ?_⟩⟩
  · obtain ⟨row, hrow, hhash⟩ := hcode
    intro other hmem hshared
    exact (h.stands.codes row hrow).unused other hmem (hshared.trans hhash.symm)
  · intro row hrow
    obtain ⟨hmem, hne⟩ := List.mem_filter.mp hrow
    refine (h.stands.codes row hmem).concat fun other hevent => ?_
    cases hevent
    exact fun hsame => by simp [hsame] at hne
  · intro row hrow
    obtain hrow | hrow := List.mem_append.mp hrow
    · exact (h.stands.grants row hrow).concat id
    · obtain rfl := List.mem_singleton.mp hrow
      refine ⟨⟨exchange, by simp, hrows.grant_id.symm, hrows.grant_family.symm,
        hrows.grant_client.symm⟩, ?_⟩
      rw [hrows.grant_revoked, hrows.grant_id, hended]
      simpa using hnotEnded
  · intro row hrow
    obtain hrow | hrow := List.mem_append.mp hrow
    · obtain ⟨hstands, hexists⟩ := h.stands.accessTokens row hrow
      refine ⟨hstands.concat id fun issue hissue => ?_, ?_⟩
      · rw [hnew issue hissue]
        exact (hother _ hexists).symm
      · exact hexists.imp fun other hmem => ⟨List.mem_append_left _ hmem.1, hmem.2⟩
    · obtain rfl := List.mem_singleton.mp hrow
      refine ⟨⟨?_, exchange.issue, ?_, hrows.access_hash.symm, hrows.access_expires⟩,
        grant, by simp, hrows.grant_id.trans hrows.access_grant.symm⟩
      · rw [hrows.access_grant, hended]
        exact hnotEnded
      · rw [hrows.access_grant]
        exact latestIssue_concat rfl
  · intro row hrow
    obtain hrow | hrow := List.mem_append.mp hrow
    · obtain ⟨hstands, hexists⟩ := h.stands.refreshTokens row hrow
      refine ⟨hstands.concat id fun _ _ hevent => (by cases hevent), ?_⟩
      exact hexists.imp fun other hmem => ⟨List.mem_append_left _ hmem.1, hmem.2⟩
    · obtain rfl := List.mem_singleton.mp hrow
      refine ⟨⟨?_, ⟨exchange.issue, ?_, hrows.refresh_hash.symm, hrows.refresh_expires⟩,
        ⟨exchange, by simp, hrows.refresh_grant.symm, hrows.refresh_family.symm,
          hrows.refresh_client.symm, hrows.refresh_resource.symm⟩, ?_⟩,
        grant, by simp, hrows.grant_id.trans hrows.refresh_grant.symm⟩
      · rw [hrows.refresh_grant, hended]
        exact hnotEnded
      · rw [hrows.refresh_grant, issuesOf_concat rfl]
        simp
      · rw [hrows.refresh_unused, hrows.refresh_hash]
        simpa using hunrotated
  · intro grantId issue hlatest
    rw [hended]
    by_cases hsame : grantId = exchange.issue.grantId
    · subst hsame
      rw [latestIssue_concat rfl] at hlatest
      cases hlatest
      exact Or.inr (Or.inr ⟨access, by simp, hrows.access_hash, hrows.access_grant,
        hrows.access_expires⟩)
    · rw [latestIssue_concat_of_ne fun issue hissue => hnew issue hissue ▸ Ne.symm hsame]
        at hlatest
      refine (h.keeps.access grantId issue hlatest).imp_right fun hrest => hrest.imp_right ?_
      exact fun hexists => hexists.imp fun row hrow => ⟨List.mem_append_left _ hrow.1, hrow.2⟩
  · intro grantId issue hissue
    rw [hended]
    by_cases hsame : grantId = exchange.issue.grantId
    · subst hsame
      rw [issuesOf_concat rfl, hnil, List.nil_append, List.mem_singleton] at hissue
      subst hissue
      exact Or.inr (Or.inr ⟨refresh, by simp, hrows.refresh_hash, hrows.refresh_grant,
        hrows.refresh_expires⟩)
    · rw [issuesOf_concat_of_ne fun issue hissue => hnew issue hissue ▸ Ne.symm hsame] at hissue
      refine (h.keeps.refresh grantId issue hissue).imp_right fun hrest => hrest.imp_right ?_
      exact fun hexists => hexists.imp fun row hrow => ⟨List.mem_append_left _ hrow.1, hrow.2⟩

/-! ## Rotations -/

section Mark

variable (hash : Hash) (now : Int) (row : RefreshToken Hash)

@[simp] theorem markUsed_tokenHash : (markUsed hash now row).tokenHash = row.tokenHash := by
  rw [markUsed]
  split <;> rfl

@[simp] theorem markUsed_grantId : (markUsed hash now row).grantId = row.grantId := by
  rw [markUsed]
  split <;> rfl

@[simp] theorem markUsed_familyId : (markUsed hash now row).familyId = row.familyId := by
  rw [markUsed]
  split <;> rfl

@[simp] theorem markUsed_clientId : (markUsed hash now row).clientId = row.clientId := by
  rw [markUsed]
  split <;> rfl

@[simp] theorem markUsed_resource : (markUsed hash now row).resource = row.resource := by
  rw [markUsed]
  split <;> rfl

@[simp] theorem markUsed_expiresAt : (markUsed hash now row).expiresAt = row.expiresAt := by
  rw [markUsed]
  split <;> rfl

theorem markUsed_usedAt : (markUsed hash now row).usedAt.isSome = true ↔
    row.usedAt.isSome = true ∨ hash = row.tokenHash := by
  rw [markUsed]
  split
  · rename_i hmark
    simp only [Bool.and_eq_true, decide_eq_true_eq] at hmark
    simp [hmark.1]
  · rename_i hmark
    simp only [Bool.and_eq_true, decide_eq_true_eq, not_and, Bool.not_eq_true] at hmark
    constructor
    · exact Or.inl
    · rintro (hused | rfl)
      · exact hused
      · have hnone := hmark rfl
        cases husedAt : row.usedAt with
        | none => simp [husedAt] at hnone
        | some usedAt => rfl

end Mark

/-- The rows a rotation adds for the grant of the stored token. -/
structure RotationRows (crates : OAuthCrates Hash) (stored : RefreshToken Hash)
    (issue : TokenIssue) (access : AccessToken Hash) (refresh : RefreshToken Hash) : Prop where
  issue_grant : issue.grantId = stored.grantId
  access_hash : access.tokenHash = crates.tokenHash issue.accessToken
  access_grant : access.grantId = stored.grantId
  access_expires : access.expiresAt = issue.issuedAt + accessTtlSeconds
  refresh_hash : refresh.tokenHash = crates.tokenHash issue.refreshToken
  refresh_grant : refresh.grantId = stored.grantId
  refresh_family : refresh.familyId = stored.familyId
  refresh_client : refresh.clientId = stored.clientId
  refresh_resource : refresh.resource = stored.resource
  refresh_expires : refresh.expiresAt = issue.issuedAt + refreshTtlSeconds
  refresh_unused : refresh.usedAt = none

theorem Authority.rotated (h : Authority crates server readings trace database)
    {presented : String} {issue : TokenIssue} {stored : RefreshToken Hash}
    {access : AccessToken Hash} {refresh : RefreshToken Hash} {now : Int}
    (hfresh : FreshTrace crates (trace ++ [OAuthEvent.rotated presented issue]))
    (hstored : stored ∈ database.refreshTokens)
    (hpresented : stored.tokenHash = crates.tokenHash presented)
    (hrows : RotationRows crates stored issue access refresh) :
    Authority crates server readings (trace ++ [OAuthEvent.rotated presented issue])
      { database with
        accessTokens := (database.accessTokens.filter fun token =>
            token.grantId ≠ stored.grantId) ++ [access]
        refreshTokens := database.refreshTokens.map (markUsed (crates.tokenHash presented) now) ++
          [refresh] } := by
  obtain ⟨hstoredStands, hstoredGrant⟩ := h.stands.refreshTokens stored hstored
  obtain ⟨earlier, hearlier, hearlierHash, -⟩ := hstoredStands.issued
  have hended : ∀ grantId, Ended (trace ++ [OAuthEvent.rotated presented issue]) grantId ↔
      Ended trace grantId := fun grantId => by
    rw [ended_concat]
    exact or_iff_left id
  have hnew : ∀ other, (OAuthEvent.rotated presented issue).issue? = some other →
      other = issue := fun other hsome => (Option.some.inj hsome).symm
  have hne : ∀ grantId, ∀ earlier ∈ issuesOf trace grantId,
      crates.tokenHash earlier.refreshToken ≠ crates.tokenHash issue.refreshToken :=
    refreshHash_ne_of_fresh hfresh rfl
  have hpresentedNe : crates.tokenHash presented ≠ crates.tokenHash issue.refreshToken := by
    rw [← hpresented, ← hearlierHash]
    exact hne _ earlier hearlier
  have hrotated : ∀ hash, RotatedHash crates (trace ++ [OAuthEvent.rotated presented issue]) hash ↔
      RotatedHash crates trace hash ∨ crates.tokenHash presented = hash := by
    intro hash
    rw [rotatedHash_concat]
    refine or_congr_right ⟨?_, fun hhash => ⟨presented, issue, rfl, hhash⟩⟩
    rintro ⟨other, otherIssue, hevent, hhash⟩
    cases hevent
    exact hhash
  have hunrotated : ¬ RotatedHash crates (trace ++ [OAuthEvent.rotated presented issue])
      (crates.tokenHash issue.refreshToken) := by
    rw [hrotated]
    rintro (hbefore | hnow)
    · obtain ⟨grantId, other, hother, hhash⟩ := exists_issue_of_rotated h.justified hbefore
      exact hne grantId other hother hhash
    · exact hpresentedNe hnow
  refine ⟨Trace.always_concat.mpr ⟨h.justified, earlier, ?_, hearlierHash.trans hpresented⟩,
    ⟨?_, ?_, ?_, ?_⟩, ⟨?_, ?_⟩⟩
  · rw [hrows.issue_grant]
    exact hearlier
  · exact fun row hrow => (h.stands.codes row hrow).concat fun _ hevent => by cases hevent
  · exact fun row hrow => (h.stands.grants row hrow).concat id
  · intro row hrow
    obtain hrow | hrow := List.mem_append.mp hrow
    · obtain ⟨hmem, hother⟩ := List.mem_filter.mp hrow
      obtain ⟨hstands, hexists⟩ := h.stands.accessTokens row hmem
      refine ⟨hstands.concat id fun other hissue => ?_, hexists⟩
      rw [hnew other hissue, hrows.issue_grant]
      exact fun hsame => by simp [hsame] at hother
    · obtain rfl := List.mem_singleton.mp hrow
      rw [hrows.access_grant]
      refine ⟨⟨?_, issue, ?_, hrows.access_hash.symm, hrows.access_expires⟩, hstoredGrant⟩
      · rw [hrows.access_grant, hended]
        exact hstoredStands.not_ended
      · rw [hrows.access_grant, ← hrows.issue_grant]
        exact latestIssue_concat rfl
  · intro row hrow
    obtain hrow | hrow := List.mem_append.mp hrow
    · obtain ⟨old, hmem, rfl⟩ := List.mem_map.mp hrow
      obtain ⟨hstands, hexists⟩ := h.stands.refreshTokens old hmem
      obtain ⟨other, hother, hotherHash⟩ := hstands.issued
      obtain ⟨exchange, hexchange, hbinding⟩ := hstands.exchanged
      refine ⟨⟨?_, ⟨other, ?_, ?_⟩, ⟨exchange, List.mem_append_left _ hexchange, ?_⟩, ?_⟩, ?_⟩
      · rw [markUsed_grantId, hended]
        exact hstands.not_ended
      · rw [markUsed_grantId, issuesOf_append]
        exact List.mem_append_left _ hother
      · simpa using hotherHash
      · simpa using hbinding
      · rw [markUsed_usedAt, markUsed_tokenHash, hrotated, hstands.used_iff]
      · simpa using hexists
    · obtain rfl := List.mem_singleton.mp hrow
      obtain ⟨exchange, hexchange, hgrant, hfamily, hclient, hresource⟩ := hstoredStands.exchanged
      rw [hrows.refresh_grant]
      refine ⟨⟨?_, ⟨issue, ?_, hrows.refresh_hash.symm, hrows.refresh_expires⟩,
        ⟨exchange, List.mem_append_left _ hexchange, hgrant.trans hrows.refresh_grant.symm,
          hfamily.trans hrows.refresh_family.symm, hclient.trans hrows.refresh_client.symm,
          hresource.trans hrows.refresh_resource.symm⟩, ?_⟩, hstoredGrant⟩
      · rw [hrows.refresh_grant, hended]
        exact hstoredStands.not_ended
      · rw [hrows.refresh_grant, ← hrows.issue_grant, issuesOf_concat rfl]
        simp
      · rw [hrows.refresh_unused, hrows.refresh_hash]
        simpa using hunrotated
  · intro grantId other hlatest
    rw [hended]
    by_cases hsame : grantId = stored.grantId
    · subst hsame
      rw [← hrows.issue_grant, latestIssue_concat rfl] at hlatest
      cases hlatest
      exact Or.inr (Or.inr ⟨access, by simp, hrows.access_hash, hrows.access_grant,
        hrows.access_expires⟩)
    · have hdiffers : ∀ new, (OAuthEvent.rotated presented issue).issue? = some new →
          new.grantId ≠ grantId := by
        intro new hissue
        rw [hnew new hissue, hrows.issue_grant]
        exact Ne.symm hsame
      rw [latestIssue_concat_of_ne hdiffers] at hlatest
      refine (h.keeps.access grantId other hlatest).imp_right fun hrest => hrest.imp_right ?_
      rintro ⟨row, hrow, hhash, rfl, hexpires⟩
      refine ⟨row, List.mem_append_left _ (List.mem_filter.mpr ⟨hrow, ?_⟩), hhash, rfl, hexpires⟩
      simpa using hsame
  · intro grantId other hother
    rw [hended]
    by_cases hlast : grantId = stored.grantId ∧ other = issue
    · obtain ⟨rfl, rfl⟩ := hlast
      exact Or.inr (Or.inr ⟨refresh, by simp, hrows.refresh_hash, hrows.refresh_grant,
        hrows.refresh_expires⟩)
    · have hbefore : other ∈ issuesOf trace grantId := by
        rw [issuesOf_append, List.mem_append] at hother
        refine hother.resolve_right fun hnow => hlast ?_
        obtain ⟨hgrant, event, hevent, hissue⟩ := mem_issuesOf.mp hnow
        rw [List.mem_singleton.mp hevent] at hissue
        obtain rfl := hnew other hissue
        exact ⟨hgrant.symm.trans hrows.issue_grant, rfl⟩
      refine (h.keeps.refresh grantId other hbefore).imp_right fun hrest => hrest.imp_right ?_
      rintro ⟨row, hrow, hhash, rfl, hexpires⟩
      refine ⟨markUsed (crates.tokenHash presented) now row,
        List.mem_append_left _ (List.mem_map_of_mem hrow), ?_⟩
      simpa using ⟨hhash, hexpires⟩

/-! ## Calls -/

omit [DecidableEq Hash] in
theorem evictRevoked_codes (database : OAuthDatabase Hash) :
    database.evictRevoked.codes = database.codes := by
  rw [OAuthDatabase.evictRevoked]
  split
  · split <;> rfl
  · rfl

/-- What an exchange that answers found and stored. -/
theorem exchangeCode_eq_ok {form : TokenForm} {drawn : TokenDraws} {now : Int}
    {other : OAuthDatabase Hash} {response : TokenResponse}
    (h : exchangeCode crates server database form drawn now = .ok (other, response)) :
    ∃ code redirectUri verifier resource stored, form.code = some code ∧
      form.redirectUri = some redirectUri ∧ form.codeVerifier = some verifier ∧
      form.resource = some resource ∧ resource = server.resource ∧
      stored ∈ (database.prune now).codes ∧ stored.codeHash = crates.tokenHash code ∧
      stored.clientId = form.clientId ∧ stored.redirectUri = redirectUri ∧
      stored.resource = resource ∧ stored.codeChallenge = crates.challenge verifier ∧
      ∃ clients, other =
        { clients
          codes := (database.prune now).evictRevoked.codes.filter fun row =>
            row.codeHash ≠ crates.tokenHash code
          grants := (database.prune now).evictRevoked.grants ++
            [{ id := drawn.grantId, familyId := drawn.familyId, clientId := stored.clientId
               resource, scope := stored.scope, createdAt := now, revokedAt := none }]
          accessTokens := (database.prune now).evictRevoked.accessTokens ++
            [{ tokenHash := crates.tokenHash drawn.accessToken, grantId := drawn.grantId
               expiresAt := now + accessTtlSeconds }]
          refreshTokens := (database.prune now).evictRevoked.refreshTokens ++
            [{ tokenHash := crates.tokenHash drawn.refreshToken, grantId := drawn.grantId
               familyId := drawn.familyId, clientId := stored.clientId, resource
               scope := stored.scope, expiresAt := now + refreshTtlSeconds
               usedAt := none }] } := by
  unfold exchangeCode at h
  split at h
  · cases h
  · cases h
  · cases h
  · cases h
  · rename_i code redirectUri verifier resource hcode hredirect hverifier hresource
    dsimp only at h
    split at h
    · cases h
    · rename_i hserver
      split at h
      · cases h
      · rename_i stored hfound
        split at h
        · cases h
        · rename_i hbinding
          split at h
          · cases h
          · split at h
            · cases h
            · split at h
              · cases h
              · obtain ⟨hother, -⟩ := Prod.mk.inj (Except.ok.inj h)
                simp only [ne_eq, Bool.or_eq_true, decide_eq_true_eq, not_or, not_not]
                  at hserver hbinding
                have hhash := List.find?_some hfound
                rw [decide_eq_true_eq] at hhash
                obtain ⟨⟨⟨⟨hclient, huri⟩, hstored⟩, hchallenge⟩, -⟩ := hbinding
                exact ⟨code, redirectUri, verifier, resource, stored, hcode, hredirect, hverifier,
                  hresource, hserver.1, List.mem_of_find?_eq_some hfound, hhash, hclient, huri,
                  hstored, hchallenge, _, hother.symm⟩

theorem storedRefresh_eq_some {presented : String} {stored : RefreshToken Hash}
    {revokedAt : Option Int}
    (h : storedRefresh crates database presented = some (stored, revokedAt)) :
    stored ∈ database.refreshTokens ∧ stored.tokenHash = crates.tokenHash presented ∧
      ∃ grant ∈ database.grants, grant.id = stored.grantId ∧ grant.revokedAt = revokedAt := by
  simp only [storedRefresh, Option.bind_eq_some_iff, Option.map_eq_some_iff] at h
  obtain ⟨row, hrow, grant, hgrant, hpair⟩ := h
  obtain ⟨rfl, rfl⟩ := Prod.mk.inj hpair
  have hhash := List.find?_some hrow
  have hid := List.find?_some hgrant
  rw [decide_eq_true_eq] at hhash hid
  exact ⟨List.mem_of_find?_eq_some hrow, hhash, grant, List.mem_of_find?_eq_some hgrant, hid, rfl⟩

/-- A rotation fails, or revokes the family of a used token, or answers with new tokens. -/
theorem rotateRefresh_cases (crates : OAuthCrates Hash) (server : OAuthServer)
    (database : OAuthDatabase Hash) (form : TokenForm) (drawn : TokenDraws) (now : Int) :
    (replayedGrant crates server database form now = none ∧ ∃ failure,
      rotateRefresh crates server database form drawn now = (database, .error failure)) ∨
    (∃ stored ∈ (database.prune now).refreshTokens,
      replayedGrant crates server database form now = some stored.grantId ∧ ∃ failure,
        rotateRefresh crates server database form drawn now =
          ((database.prune now).revokeFamily stored.familyId now, .error failure)) ∨
    (replayedGrant crates server database form now = none ∧
      ∃ presented stored revokedAt scope response, form.refreshToken = some presented ∧
        storedRefresh crates (database.prune now) presented = some (stored, revokedAt) ∧
        rotateRefresh crates server database form drawn now =
          ({ database.prune now with
              accessTokens := ((database.prune now).accessTokens.filter fun token =>
                  token.grantId ≠ stored.grantId) ++
                [{ tokenHash := crates.tokenHash drawn.accessToken, grantId := stored.grantId
                   expiresAt := now + accessTtlSeconds }]
              refreshTokens := (database.prune now).refreshTokens.map
                  (markUsed (crates.tokenHash presented) now) ++
                [{ stored with
                   tokenHash := crates.tokenHash drawn.refreshToken, scope := scope
                   expiresAt := now + refreshTtlSeconds, usedAt := none }] },
            .ok response)) := by
  unfold rotateRefresh replayedGrant
  cases hpresented : form.refreshToken with
  | none => exact Or.inl ⟨rfl, _, rfl⟩
  | some presented =>
      dsimp only
      rw [Option.bind_some]
      cases hstored : storedRefresh crates (database.prune now) presented with
      | none => exact Or.inl ⟨rfl, _, rfl⟩
      | some found =>
          obtain ⟨stored, revokedAt⟩ := found
          dsimp only
          rw [Option.bind_some]
          cases hbinds : bindsClient server form stored with
          | false => exact Or.inl ⟨rfl, _, rfl⟩
          | true =>
              cases hused : stored.usedAt.isSome with
              | true =>
                  exact Or.inr (Or.inl ⟨stored, (storedRefresh_eq_some hstored).1, rfl, _, rfl⟩)
              | false =>
                  simp only [Bool.not_true, Bool.false_eq_true, if_false, Bool.and_false]
                  split
                  · exact Or.inl ⟨trivial, _, rfl⟩
                  · split
                    · exact Or.inl ⟨trivial, _, rfl⟩
                    · split
                      · exact Or.inl ⟨trivial, _, rfl⟩
                      · split
                        · exact Or.inl ⟨trivial, _, rfl⟩
                        · split
                          · exact Or.inl ⟨trivial, _, rfl⟩
                          · exact Or.inr (Or.inr ⟨trivial, presented, stored, revokedAt, _, _,
                              rfl, hstored, rfl⟩)

omit [DecidableEq Hash] in
/-- A stored code was issued for a request of the owner's approval. -/
theorem Authority.approved_of_code (h : Authority crates server readings trace database)
    {row : OAuthCode Hash} (hrow : row ∈ database.codes) :
    ∃ code request, .issued code request ∈ trace ∧ .approved request ∈ trace ∧
      crates.tokenHash code = row.codeHash ∧ request.clientId = row.clientId ∧
      request.redirectUri = row.redirectUri ∧ request.resource = row.resource ∧
      request.codeChallenge = row.codeChallenge := by
  obtain ⟨code, request, hissued, hbinding⟩ := (h.stands.codes row hrow).issued
  obtain ⟨before, after, rfl, happroved⟩ := h.justified.of_mem hissued
  exact ⟨code, request, hissued, List.mem_append_left _ happroved, hbinding⟩

theorem Authority.exchangeCode (h : Authority crates server readings trace database)
    {form : TokenForm} {drawn : TokenDraws} {now : Int} {other : OAuthDatabase Hash}
    {response : TokenResponse} (hnow : now ∈ readings)
    (hanswer : exchangeCode crates server database form drawn now = .ok (other, response))
    {exchange : CodeExchange}
    (hexchange : exchange =
      ({ code := form.code.getD "", clientId := form.clientId
         redirectUri := form.redirectUri.getD "", resource := form.resource.getD ""
         codeVerifier := form.codeVerifier.getD "", familyId := drawn.familyId
         issue := { grantId := drawn.grantId, accessToken := drawn.accessToken
                    refreshToken := drawn.refreshToken, issuedAt := now } } : CodeExchange))
    (hfresh : FreshTrace crates (trace ++ [OAuthEvent.exchanged exchange])) :
    Authority crates server readings (trace ++ [OAuthEvent.exchanged exchange]) other := by
  obtain ⟨code, redirectUri, verifier, resource, stored, hcode, hredirect, hverifier, hresource,
    hserver, hstored, hhash, hclient, huri, hstoredResource, hchallenge, clients, rfl⟩ :=
    exchangeCode_eq_ok hanswer
  rw [hcode, hredirect, hverifier, hresource] at hexchange
  subst hexchange
  have hpruned := h.prune hnow
  refine hpruned.evictRevoked.exchanged hfresh ?_ ⟨stored, ?_, hhash⟩ ?_
  · obtain ⟨issued, request, hissued, happroved, hissuedHash, hrequestClient, hrequestUri,
      hrequestResource, hrequestChallenge⟩ := hpruned.approved_of_code hstored
    exact ⟨issued, request, hissued, happroved, hissuedHash.trans hhash,
      hrequestClient.trans hclient, hrequestUri.trans huri,
      hrequestResource.trans hstoredResource, hserver, hrequestChallenge.trans hchallenge⟩
  · rw [evictRevoked_codes]
    exact hstored
  · constructor <;> first | rfl | exact hclient

theorem Authority.rotateRefresh (h : Authority crates server readings trace database)
    {form : TokenForm} {drawn : TokenDraws} {now : Int} (hnow : now ∈ readings)
    (hgrant : form.grantType = "refresh_token")
    (hfresh : FreshTrace crates
      (trace ++ tokenEvents crates server database form drawn now)) :
    Authority crates server readings (trace ++ tokenEvents crates server database form drawn now)
      (rotateRefresh crates server database form drawn now).1 := by
  have hpruned := h.prune hnow
  have hcode : ¬ form.grantType = "authorization_code" := by
    rw [hgrant]
    decide
  simp only [tokenEvents, if_neg hcode, if_pos hgrant] at hfresh ⊢
  obtain ⟨hnone, failure, houtcome⟩ | ⟨stored, hstored, hreplayed, failure, houtcome⟩ |
    ⟨hnone, presented, stored, revokedAt, scope, response, hpresented, hstored, houtcome⟩ :=
    rotateRefresh_cases crates server database form drawn now
  · rw [hnone, houtcome]
    simpa using h
  · rw [hreplayed] at hfresh
    rw [hreplayed, houtcome]
    dsimp only at hfresh ⊢
    rw [hpruned.revokeFamily_eq hfresh.of_append hstored]
    obtain ⟨issue, hissue, -⟩ := (hpruned.stands.refreshTokens stored hstored).1.issued
    exact hpruned.revoked now (Or.inl rfl) (List.ne_nil_of_mem hissue)
  · rw [hnone, houtcome, hpresented, Option.getD_some, hstored] at hfresh
    rw [hnone, houtcome, hpresented, Option.getD_some, hstored]
    dsimp only [Option.toList, List.map_cons, List.map_nil] at hfresh ⊢
    obtain ⟨hmem, hhash, -⟩ := storedRefresh_eq_some hstored
    refine hpruned.rotated hfresh hmem hhash ?_
    constructor <;> rfl

theorem Authority.token (h : Authority crates server readings trace database)
    {form : TokenForm} {drawn : TokenDraws} {now : Int} (hnow : now ∈ readings)
    (hfresh : FreshTrace crates
      (trace ++ tokenEvents crates server database form drawn now)) :
    Authority crates server readings (trace ++ tokenEvents crates server database form drawn now)
      (tokenStep crates server database form drawn now).1 := by
  by_cases hcode : form.grantType = "authorization_code"
  · simp only [tokenEvents, tokenStep, if_pos hcode] at hfresh ⊢
    cases hanswer : Mcp.exchangeCode crates server database form drawn now with
    | error failure => simpa using h
    | ok answer =>
        obtain ⟨other, response⟩ := answer
        rw [hanswer] at hfresh
        exact h.exchangeCode hnow hanswer rfl hfresh
  · by_cases hrefresh : form.grantType = "refresh_token"
    · have hstep : tokenStep crates server database form drawn now =
          Mcp.rotateRefresh crates server database form drawn now := by
        rw [tokenStep, if_neg hcode, if_pos hrefresh]
      rw [hstep]
      exact h.rotateRefresh hnow hrefresh hfresh
    · simp only [tokenEvents, tokenStep, if_neg hcode, if_neg hrefresh]
      simpa using h

omit [DecidableEq Hash] in
theorem Authority.register (h : Authority crates server readings trace database)
    {request : RegistrationRequest} {random : String} {now : Int} {other : OAuthDatabase Hash}
    (hnow : now ∈ readings)
    (hstored : register crates database request random now = some other) :
    Authority crates server readings trace other := by
  simp only [Mcp.register, Option.bind_eq_some_iff] at hstored
  obtain ⟨redirectUris, -, hstored⟩ := hstored
  split at hstored
  · cases hstored
  · rw [Option.bind_eq_some_iff] at hstored
    obtain ⟨pruned, hpruned, hstored⟩ := hstored
    rw [Option.bind_eq_some_iff] at hstored
    obtain ⟨freed, hfreed, hstored⟩ := hstored
    have hkept : Authority crates server readings trace pruned :=
      (h.prune hnow).deleteClients hpruned
    have hroom : Authority crates server readings trace freed := by
      rw [OAuthDatabase.evictUnapproved] at hfreed
      split at hfreed
      · split at hfreed
        · exact hkept.deleteClients hfreed
        · cases hfreed
          exact hkept
      · cases hfreed
        exact hkept
    split at hstored
    · cases hstored
    · cases hstored
      exact hroom.of_codes (fun _ hrow => hrow) rfl rfl rfl

/-- Storing the code of an approved request. -/
theorem Authority.issueCode (h : Authority crates server readings trace database)
    {request : PendingRequest} {code : String} {now : Int} {other : OAuthDatabase Hash}
    (hnow : now ∈ readings) (happroved : .approved request ∈ trace)
    (hfresh : FreshTrace crates (trace ++ [OAuthEvent.issued code request]))
    (hstored : issueCode crates database request code now = some other) :
    Authority crates server readings (trace ++ [OAuthEvent.issued code request]) other := by
  have hquiet := (h.prune hnow).quiet (Or.inr ⟨code, request, rfl⟩) happroved
  simp only [Mcp.issueCode] at hstored
  split at hstored
  · cases hstored
  · split at hstored
    · cases hstored
    · split at hstored
      · cases hstored
      · cases hstored
        refine ⟨hquiet.justified, ⟨?_, hquiet.stands.grants, hquiet.stands.accessTokens,
          hquiet.stands.refreshTokens⟩, ⟨hquiet.keeps.access, hquiet.keeps.refresh⟩⟩
        intro row hrow
        obtain hrow | hrow := List.mem_append.mp hrow
        · exact hquiet.stands.codes row hrow
        · obtain rfl := List.mem_singleton.mp hrow
          refine ⟨⟨code, request, by simp, rfl, rfl, rfl, rfl, rfl⟩, fun exchange hexchange => ?_⟩
          intro hshared
          -- a code that was exchanged had been issued before
          obtain hexchange | hexchange := List.mem_append.mp hexchange
          · obtain ⟨before, after, rfl, hjust, -⟩ := h.justified.of_mem hexchange
            obtain ⟨earlier, earlierRequest, hissued, -, hhash, -⟩ := hjust
            have hname : crates.tokenHash code ∈
                (OAuthEvent.issued code request).names crates := by
              simp [OAuthEvent.names, draws]
            refine Trace.not_mem_names_of_concat hfresh (List.mem_append_left _ hissued) hname ?_
            simp [OAuthEvent.names, draws, hhash, hshared]
          · cases List.mem_singleton.mp hexchange

/-- A token that is found belongs to a grant of the tables. -/
theorem grantOfToken_eq_some {token : String} {grant : OAuthGrant}
    (h : grantOfToken crates database token = some grant) : grant ∈ database.grants := by
  obtain ⟨id, -, hgrant⟩ := List.exists_of_findSome?_eq_some h
  exact List.mem_of_find?_eq_some hgrant

theorem Authority.revoke (h : Authority crates server readings trace database)
    (form : RevokeForm) (now : Int) :
    Authority crates server readings
      (trace ++ (revokedGrant crates database form).toList.map
        fun grant => OAuthEvent.revoked grant.id)
      (revoke crates database form now) := by
  rw [Mcp.revoke]
  cases hgrant : revokedGrant crates database form with
  | none => simpa using h
  | some grant =>
      have hmem := grantOfToken_eq_some (Option.filter_eq_some_iff.mp hgrant).1
      obtain ⟨exchange, hexchange, hid, -⟩ := (h.stands.grants grant hmem).exchanged
      exact h.revoked now (Or.inr rfl) (hid ▸ issuesOf_ne_nil_of_exchange hexchange)

omit [DecidableEq Hash] in
theorem Authority.pruneStatement (h : Authority crates server readings trace database)
    (statement : PruneStatement) {now : Int} (hnow : now ∈ readings) :
    Authority crates server readings trace (statement.execute now database) := by
  cases statement with
  | codes => exact h.pruneCodes now
  | accessTokens => exact h.pruneAccessTokens hnow
  | refreshTokens => exact h.pruneRefreshTokens hnow
  | grants => exact h.pruneGrants now
  | clients =>
      simp only [PruneStatement.execute]
      cases hpruned : database.pruneUnapprovedClients now with
      | none => exact h
      | some pruned => exact h.deleteClients hpruned

/-! ## Runs -/

/-- The invariant of the whole system after a run. -/
structure SystemHolds (crates : OAuthCrates Hash) (server : OAuthServer)
    (calls : List OAuthCall) (outcome : OAuthSystem Hash × List OAuthEvent) : Prop where
  authority : Authority crates server (clockReadings calls) outcome.2 outcome.1.database
  approved : ∀ request ∈ outcome.1.approved, .approved request ∈ outcome.2
  drawn : (outcome.2.flatMap OAuthEvent.draws).Sublist (calls.flatMap OAuthCall.draws)

omit [DecidableEq Hash] in
theorem authority_empty (crates : OAuthCrates Hash) (server : OAuthServer) :
    Authority crates server [] [] {} := by
  refine ⟨Trace.always_nil, ⟨?_, ?_, ?_, ?_⟩, ⟨?_, ?_⟩⟩
  · exact fun row hrow => absurd hrow List.not_mem_nil
  · exact fun row hrow => absurd hrow List.not_mem_nil
  · exact fun row hrow => absurd hrow List.not_mem_nil
  · exact fun row hrow => absurd hrow List.not_mem_nil
  · exact fun grantId issue hlatest => by cases hlatest
  · exact fun grantId issue hmem => absurd hmem List.not_mem_nil

theorem clockReadings_concat (calls : List OAuthCall) (call : OAuthCall) :
    clockReadings (calls ++ [call]) = clockReadings calls ++ call.reading.toList := by
  rw [clockReadings, List.filterMap_append, clockReadings]
  cases hreading : call.reading <;> simp [hreading]

/-- The events of a call make random values of it known. -/
theorem draws_oauthStep (system : OAuthSystem Hash) (call : OAuthCall) :
    (((oauthStep crates server system call).2).flatMap OAuthEvent.draws).Sublist call.draws := by
  cases call with
  | register request random now => exact List.nil_sublist _
  | authorize query instant => exact List.nil_sublist _
  | insertPending request requestId instant =>
      simp only [oauthStep]
      split <;> exact List.nil_sublist _
  | decide form instant =>
      simp only [oauthStep]
      cases (authorizePost crates server system.pending form instant).2 <;>
        exact List.nil_sublist _
  | issueCode request code now =>
      simp only [oauthStep]
      split
      · split
        · exact List.Sublist.refl _
        · exact List.nil_sublist _
      · exact List.nil_sublist _
  | token form drawn now =>
      simp only [oauthStep, tokenEvents, OAuthCall.draws]
      split
      · split
        · exact List.Sublist.refl _
        · exact List.nil_sublist _
      · split
        · split
          · exact List.nil_sublist _
          · split
            · generalize storedRefresh crates _ _ = stored
              cases stored with
              | none => exact List.nil_sublist _
              | some stored => exact List.Sublist.refl _
            · exact List.nil_sublist _
        · exact List.nil_sublist _
  | revoke form now =>
      simp only [oauthStep]
      cases revokedGrant crates system.database form <;> exact List.nil_sublist _
  | revokeAll now => exact List.nil_sublist _
  | prune statement now => exact List.nil_sublist _
  | restart => exact List.nil_sublist _

/-- One call keeps the invariant. -/
theorem SystemHolds.step {calls : List OAuthCall} {call : OAuthCall}
    {outcome : OAuthSystem Hash × List OAuthEvent} (h : SystemHolds crates server calls outcome)
    (hfresh : FreshDraws crates (calls ++ [call])) :
    SystemHolds crates server (calls ++ [call])
      ((oauthStep crates server outcome.1 call).1,
        outcome.2 ++ (oauthStep crates server outcome.1 call).2) := by
  obtain ⟨system, trace⟩ := outcome
  obtain ⟨hauthority, happroved, hdrawn⟩ := h
  dsimp only at hauthority happroved hdrawn ⊢
  have hdrawnStep : ((trace ++ (oauthStep crates server system call).2).flatMap
      OAuthEvent.draws).Sublist ((calls ++ [call]).flatMap OAuthCall.draws) := by
    rw [List.flatMap_append, List.flatMap_append]
    refine hdrawn.append ?_
    simpa using draws_oauthStep system call
  have hfreshTrace := freshTrace_of_sublist hfresh hdrawnStep
  suffices hsuffices : Authority crates server (clockReadings (calls ++ [call]))
        (trace ++ (oauthStep crates server system call).2)
        (oauthStep crates server system call).1.database ∧
      ∀ request ∈ (oauthStep crates server system call).1.approved,
        .approved request ∈ trace ++ (oauthStep crates server system call).2 from
    ⟨hsuffices.1, hsuffices.2, hdrawnStep⟩
  have hread := hauthority.read call.reading.toList
  rw [← clockReadings_concat] at hread
  have hkept : ∀ request ∈ system.approved, ∀ more, OAuthEvent.approved request ∈ trace ++ more :=
    fun request hmem more => List.mem_append_left _ (happroved request hmem)
  cases call with
  | register request random now =>
      refine ⟨?_, fun request hmem => hkept request hmem _⟩
      simp only [oauthStep, List.append_nil]
      cases hstored : Mcp.register crates system.database request random now with
      | none => exact hread
      | some other => exact hread.register (by simp [clockReadings, OAuthCall.reading]) hstored
  | authorize query instant =>
      simp only [oauthStep, List.append_nil]
      exact ⟨hread, happroved⟩
  | insertPending request requestId instant =>
      simp only [oauthStep]
      split
      · rw [List.append_nil]
        exact ⟨hread, happroved⟩
      · rw [List.append_nil]
        exact ⟨hread, happroved⟩
  | decide form instant =>
      simp only [oauthStep]
      cases (authorizePost crates server system.pending form instant).2 with
      | none =>
          simp only [Option.toList_none, List.map_nil, List.append_nil, List.nil_append]
          exact ⟨hread, happroved⟩
      | some request =>
          refine ⟨hread.quiet (Or.inl ⟨request, rfl⟩) trivial, ?_⟩
          intro other hother
          obtain rfl | hother := List.mem_cons.mp hother
          · simp
          · exact hkept other hother _
  | issueCode request code now =>
      simp only [oauthStep] at hfreshTrace ⊢
      split
      · rename_i hmem
        rw [if_pos hmem] at hfreshTrace
        split
        · rename_i stored hstored
          rw [hstored] at hfreshTrace
          have hnow : now ∈ clockReadings (calls ++ [OAuthCall.issueCode request code now]) := by
            simp [clockReadings, OAuthCall.reading]
          refine ⟨hread.issueCode hnow (happroved request hmem) hfreshTrace hstored, ?_⟩
          exact fun other hother => hkept other (List.mem_of_mem_erase hother) _
        · rw [List.append_nil]
          exact ⟨hread, fun other hother => happroved other (List.mem_of_mem_erase hother)⟩
      · rw [List.append_nil]
        exact ⟨hread, happroved⟩
  | token form drawn now =>
      refine ⟨hread.token (by simp [clockReadings, OAuthCall.reading]) hfreshTrace, ?_⟩
      exact fun request hmem => hkept request hmem _
  | revoke form now =>
      exact ⟨hread.revoke form now, fun request hmem => hkept request hmem _⟩
  | revokeAll now =>
      exact ⟨hread.revokedAll now, fun request hmem => hkept request hmem _⟩
  | prune statement now =>
      simp only [oauthStep, List.append_nil]
      exact ⟨hread.pruneStatement statement (by simp [clockReadings, OAuthCall.reading]), happroved⟩
  | restart =>
      simp only [oauthStep, List.append_nil]
      exact ⟨hread, fun request hmem => absurd hmem List.not_mem_nil⟩

/-- A run keeps the invariant. -/
theorem oauthRun_holds (server : OAuthServer) {calls : List OAuthCall}
    (hfresh : FreshDraws crates calls) :
    SystemHolds crates server calls (oauthRun crates server calls) := by
  induction calls using List.reverseRecOn with
  | nil =>
      exact ⟨authority_empty crates server, fun request hmem => absurd hmem List.not_mem_nil,
        List.nil_sublist _⟩
  | append_singleton calls call ih =>
      have hbefore : FreshDraws crates calls := by
        rw [FreshDraws, List.flatMap_append, List.map_append] at hfresh
        exact (List.nodup_append.mp hfresh).1
      rw [oauthRun_concat]
      exact (ih hbefore).step hfresh

end Memex.Mcp
