import Memex.Mcp.OAuthSteps

/-! # What an accepted token stands for

An access token is accepted only as the latest one of a grant that an approved code was
exchanged for; ended grants are never accepted again. -/

namespace Memex.Mcp

open OAuthEvent

variable {Hash : Type} {crates : OAuthCrates Hash} {server : OAuthServer}
  {trace : List OAuthEvent}

/-- Exactly one exchange of the trace created the grant, with a code of an approved
request. -/
def ExchangedOnce (crates : OAuthCrates Hash) (server : OAuthServer) (trace : List OAuthEvent)
    (grantId : String) : Prop :=
  ∃ before exchange after, trace = before ++ OAuthEvent.exchanged exchange :: after ∧
    exchange.issue.grantId = grantId ∧ JustifiesExchange crates server before exchange ∧
    ∀ other, OAuthEvent.exchanged other ∈ before ++ after → other.issue.grantId ≠ grantId

/-- A call that has to end the grant: its client presents a used refresh token of it or
revokes one of its tokens, before the token has expired, or everything is revoked. -/
inductive EndsByCall (crates : OAuthCrates Hash) (server : OAuthServer)
    (calls : List OAuthCall) (trace : List OAuthEvent) (grantId : String) : OAuthCall → Prop where
  | replay {form : TokenForm} {drawn : TokenDraws} {now : Int} {presented : String}
      {issue : TokenIssue} {exchange : CodeExchange} (htype : form.grantType = "refresh_token")
      (hpresented : form.refreshToken = some presented) (hissue : issue ∈ issuesOf trace grantId)
      (hhash : crates.tokenHash presented = crates.tokenHash issue.refreshToken)
      (hused : RotatedHash crates trace (crates.tokenHash presented))
      (hexchange : .exchanged exchange ∈ trace) (hgrant : exchange.issue.grantId = grantId)
      (hclient : form.clientId = exchange.clientId)
      (hresource : form.resource = some server.resource)
      (hlive : ¬ Elapsed (clockReadings calls ++ [now]) (issue.issuedAt + refreshTtlSeconds)) :
      EndsByCall crates server calls trace grantId (.token form drawn now)
  | revokeRefresh {form : RevokeForm} {now : Int} {issue : TokenIssue} {exchange : CodeExchange}
      (hissue : issue ∈ issuesOf trace grantId)
      (hhash : crates.tokenHash form.token = crates.tokenHash issue.refreshToken)
      (hexchange : .exchanged exchange ∈ trace) (hgrant : exchange.issue.grantId = grantId)
      (hclient : form.clientId = exchange.clientId)
      (hlive : ¬ Elapsed (clockReadings calls) (issue.issuedAt + refreshTtlSeconds)) :
      EndsByCall crates server calls trace grantId (.revoke form now)
  | revokeAccess {form : RevokeForm} {now : Int} {issue : TokenIssue} {exchange : CodeExchange}
      (hissue : latestIssue trace grantId = some issue)
      (hhash : crates.tokenHash form.token = crates.tokenHash issue.accessToken)
      (hexchange : .exchanged exchange ∈ trace) (hgrant : exchange.issue.grantId = grantId)
      (hclient : form.clientId = exchange.clientId)
      (hlive : ¬ Elapsed (clockReadings calls) (issue.issuedAt + accessTtlSeconds)) :
      EndsByCall crates server calls trace grantId (.revoke form now)
  | revokeAll {now : Int} (hissues : issuesOf trace grantId ≠ []) :
      EndsByCall crates server calls trace grantId (.revokeAll now)

variable [DecidableEq Hash] {readings : List Int} {database : OAuthDatabase Hash}

/-- No token of the pair is accepted any more, whenever it is presented. -/
def NeverAccepted (crates : OAuthCrates Hash) (server : OAuthServer)
    (database : OAuthDatabase Hash) (issue : TokenIssue) : Prop :=
  (∀ now token, crates.tokenHash token = crates.tokenHash issue.accessToken →
    authorizeAccess crates server database now token = false) ∧
  ∀ form drawn now presented, form.grantType = "refresh_token" →
    form.refreshToken = some presented →
    crates.tokenHash presented = crates.tokenHash issue.refreshToken →
      ∃ failure, (tokenStep crates server database form drawn now).2 = .error failure

/-! ## Accepted tokens -/

omit [DecidableEq Hash] in
theorem Authority.exchangedOnce (h : Authority crates server readings trace database)
    (hfresh : FreshTrace crates trace) {grant : OAuthGrant} (hgrant : grant ∈ database.grants) :
    ExchangedOnce crates server trace grant.id := by
  obtain ⟨exchange, hexchange, hid, -⟩ := (h.stands.grants grant hgrant).exchanged
  obtain ⟨before, after, hsplit, hjustified, -⟩ := h.justified.of_mem hexchange
  refine ⟨before, exchange, after, hsplit, hid, hjustified, fun other hother hsame => ?_⟩
  have hname : crates.tokenHash exchange.issue.grantId ∈
      (OAuthEvent.exchanged exchange).names crates := by
    simp [OAuthEvent.names, draws]
  refine Trace.not_mem_names_of_split hfresh hsplit hother hname ?_
  simp [OAuthEvent.names, draws, hid, hsame]

theorem Authority.of_authorizeAccess (h : Authority crates server readings trace database)
    {now : Int} {token : String}
    (haccepted : authorizeAccess crates server database now token = true) :
    ∃ grant ∈ database.grants, grant.revokedAt = none ∧ grant.resource = server.resource ∧
      ∃ issue, latestIssue trace grant.id = some issue ∧
        crates.tokenHash issue.accessToken = crates.tokenHash token ∧
        now < issue.issuedAt + accessTtlSeconds := by
  simp only [authorizeAccess, List.any_eq_true, Bool.and_eq_true, decide_eq_true_eq,
    Option.isNone_iff_eq_none] at haccepted
  obtain ⟨row, hrow, ⟨hhash, hlive⟩, grant, hgrant, ⟨⟨hid, hrevoked⟩, hresource⟩, -⟩ := haccepted
  obtain ⟨issue, hlatest, hissued, hexpires⟩ := (h.stands.accessTokens row hrow).1.latest
  refine ⟨grant, hgrant, hrevoked, hresource, issue, ?_, hissued.trans hhash, ?_⟩
  · rw [hid]
    exact hlatest
  · omega

omit [DecidableEq Hash] in
/-- Codes of two exchanges differ. -/
theorem Authority.code_ne (h : Authority crates server readings trace database)
    {before after : List OAuthEvent} {exchange other : CodeExchange}
    (hsplit : trace = before ++ .exchanged exchange :: after)
    (hother : .exchanged other ∈ before ++ after) :
    crates.tokenHash other.code ≠ crates.tokenHash exchange.code := by
  obtain hbefore | hafter := List.mem_append.mp hother
  · exact (h.justified before _ after hsplit).2 other hbefore
  · obtain ⟨since, rest, rfl⟩ := List.append_of_mem hafter
    have hlater : trace = (before ++ .exchanged exchange :: since) ++ .exchanged other :: rest := by
      rw [hsplit]
      simp
    exact Ne.symm ((h.justified _ _ rest hlater).2 exchange (by simp))

theorem Authority.neverAccepted (h : Authority crates server readings trace database)
    (hfresh : FreshTrace crates trace) {grantId : String} (hended : Ended trace grantId)
    {issue : TokenIssue} (hissue : issue ∈ issuesOf trace grantId) :
    NeverAccepted crates server database issue := by
  constructor
  · intro now token hhash
    rw [← Bool.not_eq_true]
    intro haccepted
    simp only [authorizeAccess, List.any_eq_true, Bool.and_eq_true, decide_eq_true_eq]
      at haccepted
    obtain ⟨row, hrow, ⟨hrowHash, -⟩, -⟩ := haccepted
    obtain ⟨hnotEnded, other, hlatest, hother, -⟩ := (h.stands.accessTokens row hrow).1
    have hmem := latestIssue_mem hlatest
    have hsame : issue = other :=
      hfresh.issue_eq hissue hmem (Or.inl (hhash.symm.trans (hrowHash.symm.trans hother.symm)))
    have hgrant : row.grantId = grantId := by
      rw [← (mem_issuesOf.mp hmem).1, ← (mem_issuesOf.mp hissue).1, hsame]
    exact hnotEnded (hgrant ▸ hended)
  · intro form drawn now presented htype hpresented hhash
    have hcode : ¬ form.grantType = "authorization_code" := by
      rw [htype]
      decide
    rw [tokenStep, if_neg hcode, if_pos htype]
    have hpruned := (h.read [now]).prune
      (List.mem_append_right readings (List.mem_singleton_self now))
    have hnone : storedRefresh crates (database.prune now) presented = none := by
      cases hstored : storedRefresh crates (database.prune now) presented with
      | none => rfl
      | some found =>
          obtain ⟨hrow, hrowHash, -⟩ := storedRefresh_eq_some hstored
          obtain ⟨hnotEnded, ⟨other, hmem, hother, -⟩, -⟩ :=
            (hpruned.stands.refreshTokens found.1 hrow).1
          have hsame : issue = other := by
            refine hfresh.issue_eq hissue hmem (Or.inr ?_)
            rw [← hhash, ← hrowHash, hother]
          have hgrant : found.1.grantId = grantId := by
            rw [← (mem_issuesOf.mp hmem).1, ← (mem_issuesOf.mp hissue).1, hsame]
          exact absurd (hgrant ▸ hended) hnotEnded
    refine ⟨.oauth "invalid_grant" "refresh token is invalid", ?_⟩
    rw [Mcp.rotateRefresh, hpresented]
    dsimp only
    rw [hnone]

/-! ## Calls that end a grant -/

omit [DecidableEq Hash] in
/-- A refresh token that is still in the tables is found, as one of its grant. -/
theorem Authority.find_refresh (h : Authority crates server readings trace database)
    (hfresh : FreshTrace crates trace) {grantId : String} {issue : TokenIssue}
    (hissue : issue ∈ issuesOf trace grantId) (hnotEnded : ¬ Ended trace grantId)
    (hlive : ¬ Elapsed readings (issue.issuedAt + refreshTtlSeconds)) {token : String}
    (hhash : crates.tokenHash token = crates.tokenHash issue.refreshToken) :
    (∃ row ∈ database.refreshTokens, row.tokenHash = crates.tokenHash token) ∧
      ∀ row ∈ database.refreshTokens, row.tokenHash = crates.tokenHash token →
        row.grantId = grantId := by
  constructor
  · obtain hended | helapsed | ⟨row, hrow, hrowHash, -⟩ := h.keeps.refresh grantId issue hissue
    · exact absurd hended hnotEnded
    · exact absurd helapsed hlive
    · exact ⟨row, hrow, hrowHash.trans hhash.symm⟩
  · intro row hrow hrowHash
    obtain ⟨other, hmem, hother, -⟩ := (h.stands.refreshTokens row hrow).1.issued
    have hsame : issue = other := by
      refine hfresh.issue_eq hissue hmem (Or.inr ?_)
      rw [← hhash, ← hrowHash, hother]
    rw [← (mem_issuesOf.mp hmem).1, ← (mem_issuesOf.mp hissue).1, hsame]

omit [DecidableEq Hash] in
/-- The grant of a row is in the tables, under the client of its exchange. -/
theorem Authority.find_grant (h : Authority crates server readings trace database)
    (hfresh : FreshTrace crates trace) {exchange : CodeExchange}
    (hexchange : .exchanged exchange ∈ trace)
    (hexists : ∃ grant ∈ database.grants, grant.id = exchange.issue.grantId) :
    ∃ grant, database.grants.find? (fun grant => grant.id = exchange.issue.grantId) = some grant ∧
      grant.id = exchange.issue.grantId ∧ grant.clientId = exchange.clientId := by
  obtain ⟨member, hmember, hid⟩ := hexists
  cases hfound : database.grants.find? fun grant => grant.id = exchange.issue.grantId with
  | none =>
      rw [List.find?_eq_none] at hfound
      exact absurd (decide_eq_true hid) (hfound member hmember)
  | some grant =>
      have hgrantId := List.find?_some hfound
      rw [decide_eq_true_eq] at hgrantId
      obtain ⟨other, hother, hotherGrant, -, hotherClient⟩ :=
        (h.stands.grants grant (List.mem_of_find?_eq_some hfound)).exchanged
      have hsame : other = exchange :=
        hfresh.exchange_eq hother hexchange (Or.inl (hotherGrant.trans hgrantId))
      exact ⟨grant, rfl, hgrantId, by rw [← hotherClient, hsame]⟩

/-- When all rows that a token is found in belong to one grant, that grant is found. -/
theorem findSome_ids {ids : List String} {grantId : String} {grants : List OAuthGrant}
    {grant : OAuthGrant} (hne : ids ≠ []) (hids : ∀ id ∈ ids, id = grantId)
    (hgrant : grants.find? (fun grant => grant.id = grantId) = some grant) :
    ids.findSome? (fun id => grants.find? fun grant => grant.id = id) = some grant := by
  cases ids with
  | nil => exact absurd rfl hne
  | cons id rest =>
      obtain rfl := hids id List.mem_cons_self
      rw [List.findSome?_cons, hgrant]

theorem Authority.replayed_of_used (h : Authority crates server readings trace database)
    (hfresh : FreshTrace crates trace) {form : TokenForm} {now : Int} {presented : String}
    {issue : TokenIssue} {exchange : CodeExchange}
    (hpresented : form.refreshToken = some presented)
    (hissue : issue ∈ issuesOf trace exchange.issue.grantId)
    (hhash : crates.tokenHash presented = crates.tokenHash issue.refreshToken)
    (hused : RotatedHash crates trace (crates.tokenHash presented))
    (hexchange : .exchanged exchange ∈ trace) (hclient : form.clientId = exchange.clientId)
    (hresource : form.resource = some server.resource)
    (hnotEnded : ¬ Ended trace exchange.issue.grantId)
    (hlive : ¬ Elapsed (readings ++ [now]) (issue.issuedAt + refreshTtlSeconds)) :
    replayedGrant crates server database form now = some exchange.issue.grantId := by
  have hpruned := (h.read [now]).prune
    (List.mem_append_right readings (List.mem_singleton_self now))
  obtain ⟨⟨member, hmember, hmemberHash⟩, hall⟩ :=
    hpruned.find_refresh hfresh hissue hnotEnded hlive hhash
  have hfound : ∃ row, (database.prune now).refreshTokens.find?
      (fun row => row.tokenHash = crates.tokenHash presented) = some row := by
    rw [← Option.isSome_iff_exists, List.find?_isSome]
    exact ⟨member, hmember, decide_eq_true hmemberHash⟩
  obtain ⟨row, hrow⟩ := hfound
  have hrowMem := List.mem_of_find?_eq_some hrow
  have hrowHash := List.find?_some hrow
  rw [decide_eq_true_eq] at hrowHash
  have hrowGrant := hall row hrowMem hrowHash
  obtain ⟨hstands, hexists⟩ := hpruned.stands.refreshTokens row hrowMem
  rw [hrowGrant] at hexists
  obtain ⟨grant, hgrant, -⟩ := hpruned.find_grant hfresh hexchange hexists
  obtain ⟨other, hother, hotherGrant, -, hotherClient, hotherResource⟩ := hstands.exchanged
  obtain rfl : other = exchange :=
    hfresh.exchange_eq hother hexchange (Or.inl (hotherGrant.trans hrowGrant))
  have hserver : other.resource = server.resource := by
    obtain ⟨before, after, -, ⟨_, _, _, _, _, _, _, _, hserver, _⟩, -⟩ :=
      h.justified.of_mem hexchange
    exact hserver
  have hbinds : bindsClient server form row = true := by
    simp [bindsClient, hclient, hresource, ← hotherClient, ← hotherResource, hserver]
  have husedAt : row.usedAt.isSome = true := by
    rw [hstands.used_iff, hrowHash]
    exact hused
  rw [replayedGrant, hpresented, Option.bind_some, storedRefresh, hrow, Option.bind_some,
    hrowGrant, hgrant, Option.map_some, Option.bind_some]
  simp [hbinds, husedAt, hrowGrant]

/-- Such a call ends the grant. -/
theorem EndsByCall.ended {calls : List OAuthCall} {system : OAuthSystem Hash} {call : OAuthCall}
    {grantId : String} (hends : EndsByCall crates server calls trace grantId call)
    (h : Authority crates server (clockReadings calls) trace system.database)
    (hfresh : FreshTrace crates trace) :
    Ended (trace ++ (oauthStep crates server system call).2) grantId := by
  by_cases hended : Ended trace grantId
  · exact hended.append _
  · cases hends with
    | @replay form drawn now presented issue exchange htype hpresented hissue hhash hused
        hexchange hgrant hclient hresource hlive =>
        subst hgrant
        have hreplayed := h.replayed_of_used hfresh hpresented hissue hhash hused hexchange
          hclient hresource hended hlive
        have hcode : ¬ form.grantType = "authorization_code" := by
          rw [htype]
          decide
        simp only [oauthStep, tokenEvents, if_neg hcode, if_pos htype, hreplayed]
        exact ended_concat.mpr (Or.inr rfl)
    | @revokeRefresh form now issue exchange hissue hhash hexchange hgrant hclient hlive =>
        subst hgrant
        obtain ⟨⟨row, hrow, hrowHash⟩, hall⟩ := h.find_refresh hfresh hissue hended hlive hhash
        have hexists := (h.stands.refreshTokens row hrow).2
        rw [hall row hrow hrowHash] at hexists
        obtain ⟨grant, hfound, hid, hgrantClient⟩ := h.find_grant hfresh hexchange hexists
        have hnoAccess : system.database.accessTokens.filter (fun row =>
            row.tokenHash = crates.tokenHash form.token) = [] := by
          rw [List.filter_eq_nil_iff]
          intro access haccess hsame
          rw [decide_eq_true_eq] at hsame
          obtain ⟨other, hlatest, hother, -⟩ := (h.stands.accessTokens access haccess).1.latest
          refine hfresh.access_ne_refresh (latestIssue_mem hlatest) hissue ?_
          rw [hother, hsame, hhash]
        have htoken : grantOfToken crates system.database form.token = some grant := by
          rw [grantOfToken, hnoAccess]
          refine findSome_ids ?_ ?_ hfound
          · simpa using ⟨row, hrow, hrowHash⟩
          · intro id hid
            simp only [List.map_nil, List.nil_append, List.mem_map, List.mem_filter,
              decide_eq_true_eq] at hid
            obtain ⟨other, ⟨hother, hotherHash⟩, rfl⟩ := hid
            exact hall other hother hotherHash
        have hrevoked : revokedGrant crates system.database form = some grant := by
          rw [revokedGrant, htoken, Option.filter_some]
          simp [hgrantClient, hclient]
        simp only [oauthStep, hrevoked, Option.toList, List.map_cons, List.map_nil]
        exact ended_concat.mpr (Or.inr hid)
    | @revokeAccess form now issue exchange hlatest hhash hexchange hgrant hclient hlive =>
        subst hgrant
        have hissue := latestIssue_mem hlatest
        obtain hfalse | hfalse | ⟨row, hrow, hrowHash, hrowGrant, -⟩ :=
          h.keeps.access exchange.issue.grantId issue hlatest
        · exact absurd hfalse hended
        · exact absurd hfalse hlive
        · have hexists := (h.stands.accessTokens row hrow).2
          rw [hrowGrant] at hexists
          obtain ⟨grant, hfound, hid, hgrantClient⟩ := h.find_grant hfresh hexchange hexists
          have hnoRefresh : system.database.refreshTokens.filter (fun row =>
              row.tokenHash = crates.tokenHash form.token) = [] := by
            rw [List.filter_eq_nil_iff]
            intro refresh hrefresh hsame
            rw [decide_eq_true_eq] at hsame
            obtain ⟨other, hmem, hother, -⟩ := (h.stands.refreshTokens refresh hrefresh).1.issued
            refine hfresh.access_ne_refresh hissue hmem ?_
            rw [hother, hsame, hhash]
          have htoken : grantOfToken crates system.database form.token = some grant := by
            rw [grantOfToken, hnoRefresh]
            refine findSome_ids ?_ ?_ hfound
            · simpa using ⟨row, hrow, hrowHash.trans hhash.symm⟩
            · intro id hid
              simp only [List.map_nil, List.append_nil, List.mem_map, List.mem_filter,
                decide_eq_true_eq] at hid
              obtain ⟨access, ⟨haccess, haccessHash⟩, rfl⟩ := hid
              obtain ⟨other, hotherLatest, hother, -⟩ :=
                (h.stands.accessTokens access haccess).1.latest
              have hmem := latestIssue_mem hotherLatest
              have hsame : issue = other := by
                refine hfresh.issue_eq hissue hmem (Or.inl ?_)
                rw [← hhash, ← haccessHash, hother]
              rw [← (mem_issuesOf.mp hmem).1, ← (mem_issuesOf.mp hissue).1, hsame]
          have hrevoked : revokedGrant crates system.database form = some grant := by
            rw [revokedGrant, htoken, Option.filter_some]
            simp [hgrantClient, hclient]
          simp only [oauthStep, hrevoked, Option.toList, List.map_cons, List.map_nil]
          exact ended_concat.mpr (Or.inr hid)
    | revokeAll hissues => exact ended_concat.mpr (Or.inr hissues)

theorem oauthRun_prefix (crates : OAuthCrates Hash) (server : OAuthServer)
    (before after : List OAuthCall) :
    ∃ more, (oauthRun crates server (before ++ after)).2 =
      (oauthRun crates server before).2 ++ more := by
  rw [oauthRun, HeaderMachine.run_append]
  exact ⟨_, rfl⟩

/-- In every run an accepted access token is the latest and unexpired one of an unrevoked
grant for the resource that an approved code was exchanged for once, no code is exchanged
twice, and a grant that was ended is never accepted again. -/
theorem oauth_authority (crates : OAuthCrates Hash) (server : OAuthServer)
    (calls : List OAuthCall) (hfresh : FreshDraws crates calls) :
    let outcome := oauthRun crates server calls
    (∀ now token, authorizeAccess crates server outcome.1.database now token = true →
      ∃ grant ∈ outcome.1.database.grants, grant.revokedAt = none ∧
        grant.resource = server.resource ∧ ExchangedOnce crates server outcome.2 grant.id ∧
        ∃ issue, latestIssue outcome.2 grant.id = some issue ∧
          crates.tokenHash issue.accessToken = crates.tokenHash token ∧
          now < issue.issuedAt + accessTtlSeconds) ∧
    (∀ before exchange after, outcome.2 = before ++ .exchanged exchange :: after →
      ∀ other, .exchanged other ∈ before ++ after →
        crates.tokenHash other.code ≠ crates.tokenHash exchange.code) ∧
    ∀ before call after grantId, calls = before ++ call :: after →
      EndsByCall crates server before (oauthRun crates server before).2 grantId call →
        ∀ issue ∈ issuesOf outcome.2 grantId,
          NeverAccepted crates server outcome.1.database issue := by
  intro outcome
  have hholds := oauthRun_holds server hfresh
  have hfreshTrace := freshTrace_of_sublist hfresh hholds.drawn
  refine ⟨?_, ?_, ?_⟩
  · intro now token haccepted
    obtain ⟨grant, hgrant, hrevoked, hresource, hissue⟩ :=
      hholds.authority.of_authorizeAccess haccepted
    exact ⟨grant, hgrant, hrevoked, hresource,
      hholds.authority.exchangedOnce hfreshTrace hgrant, hissue⟩
  · intro before exchange after hsplit other hother
    exact hholds.authority.code_ne hsplit hother
  · rintro before call after grantId rfl hends issue hissue
    have hfreshBefore : FreshDraws crates before := by
      rw [FreshDraws, List.flatMap_append, List.map_append] at hfresh
      exact (List.nodup_append.mp hfresh).1
    have hbefore := oauthRun_holds server hfreshBefore
    have hended := hends.ended hbefore.authority
      (freshTrace_of_sublist hfreshBefore hbefore.drawn)
    have hstep := oauthRun_concat crates server before call
    obtain ⟨more, hmore⟩ := oauthRun_prefix crates server (before ++ [call]) after
    rw [List.append_assoc, List.singleton_append, hstep] at hmore
    refine hholds.authority.neverAccepted hfreshTrace ?_ hissue
    rw [hmore]
    exact hended.append more

/-! ## Two runs -/

instance (crates : OAuthCrates Hash) (calls : List OAuthCall) :
    Decidable (FreshDraws crates calls) :=
  inferInstanceAs (Decidable (List.Nodup _))

/-- Random values and the digests of their texts. -/
def sampleDigests : List (String × Nat) :=
  [("KFVP_azOvX7LnzE6cuJy4n_j8sex0Vscan31o2F2ndg",
      0xae0c8d52c00f792326c6c53f280cc29be92617ffbb5bc8d5c0099fca5c1e28b5),
   ("357PTHnlrXdwHPyIwZZjKzUxSdhYEKOB9Gn4_AXcG5I",
      0x96a7785d42ad4f2e6e90a0280372635ff554e0bca60d13723b07674f67835849),
   ("NbD60WdYtYEk858A0mBhcEUUvk45weA7eyNTSv1ggeM",
      0xe59fc997a03beb7c01717a9ffed0051862da99b335f154d8560f2dc2e3eb9f19),
   ("ueHpsGjJSvASnSD3daOV5OCrKM0gJvRe6gghtyv1jZM",
      0xe8e3a3f9ceaf034c2393ffbed5365bd20e3ecc67eb494615e3005782b4105294),
   ("E-XICiy3WUUVE9gPeUTx_Zea9T-V7-6vjez8nGZIHas",
      0xee9023ebc8fd9f4c4477f73aa80f86b6cb05ea813ebe471a13e918bf23fd62ae),
   ("vrRBNw_5ty2OVCztcKC_jKocdACGLpQNu33Fkdk4BAY",
      0x116e6eb0fea97bfed5708f16975ce4f144b55b8e758b344dbeea531218821161),
   ("P9h9-Cw9TYo1IXKbJ2B6jnPfBOKzAU6sJ20GOX7XcvI",
      0x0a701c2904ba35a9d99380421dfa1dfb8daef6ac70ed15b0770532ab2aaffc63),
   ("zY9Mmp_d8ZsCNfz0psqjM4RxI-FUGudMd7kKeSaccUU",
      0x07acabf81c1ed8ee22974e36c7ac72a4c905a2f8ce4dde4e86454338c0e1ed48),
   ("yNrDGof4Lbq_qjmjy-vVV78jG010g82N-kvPrJWK0SI",
      0xe2254d9ee08ebcc5ee96e9b5326afec7ac5baa33a10ada085d6cabe08c5c5e8c),
   ("K1A5u1tYaabLDiR8U2OHyRiUPIY3xDwfTd2DZFpHZ9c",
      0xb81e77a1557c1c275f36ecd0faa959d4510a84637287e5b4bae867174c064e22),
   ("Zo5gKugs4ZNF2gFZyrqZhjmMTZ9rgVp4WQZ8E9bq3fE",
      0x2a43bf5b9dd47f554061afe059bbe8d637b444bed3592920ed6b4a458da77144),
   ("2qfkENzxQVbTqzqU9CqtK0OAa54tUMKmMkHB1q7iOOU",
      0x68bc6f32cfcba668854eb474da7c1e382719de683ea72908562ec2855dcd19cf),
   ("qe0ot-aspMEDAP70j7GaTYfXDm7iXUMDI1H1IyNJKMY",
      0x451ba57b3d78cff2be6bb05e28b5d4d81f961f3afbbc44086b1ad36053ddccd8)]

def sampleVerifier : String := "dBjftJeZ4CVP-mB92K27uhbUJU1p1r_wW1gFWFOEjXk"

/-- Crates that know the digests and the challenge of the verifier. -/
def sampleCrates : OAuthCrates Nat where
  tokenHash token := (sampleDigests.lookup token).getD 0
  challenge verifier :=
    if verifier = sampleVerifier then "E9Melhoa2OwvFrEMTJguCHaoeK1t8URWbuGJSstw-cM" else verifier
  decodeUrlSafe encoded :=
    if encoded = "AAAAAAAAAAAAAAAAAAAAAAAAAAAAAAAAAAAAAAAAAAA" then some (List.replicate 32 0)
    else none
  validateRedirectUri redirect := some redirect

def sampleServer : OAuthServer where
  resource := "https://memex.example/mcp"
  secret := List.replicate 32 0

def sampleClient : String := "memex_KFVP_azOvX7LnzE6cuJy4n_j8sex0Vscan31o2F2ndg"

def sampleRedirect : String := "https://client.example/callback"

def sampleRequest : PendingRequest where
  createdAt := 0
  clientId := sampleClient
  clientName := "OAuth client"
  redirectUri := sampleRedirect
  codeChallenge := "E9Melhoa2OwvFrEMTJguCHaoeK1t8URWbuGJSstw-cM"
  resource := sampleServer.resource
  scope := scopeRead
  state := none

/-- A rotation of the presented token by the client. -/
def sampleRotation (presented accessToken refreshToken : String) (now : Int) : OAuthCall :=
  .token { grantType := "refresh_token", clientId := sampleClient, refreshToken := some presented
           resource := some sampleServer.resource }
    { accessToken, refreshToken, grantId := "", familyId := "" } now

/-- The first two refresh tokens of the grant. -/
def firstRefresh : String := "E-XICiy3WUUVE9gPeUTx_Zea9T-V7-6vjez8nGZIHas"

def secondRefresh : String := "yNrDGof4Lbq_qjmjy-vVV78jG010g82N-kvPrJWK0SI"

/-- A client registers, the owner approves its request, the client exchanges its code and
rotates its refresh token. -/
def sampleCalls : List OAuthCall :=
  [.register { redirectUris := [sampleRedirect] }
     "KFVP_azOvX7LnzE6cuJy4n_j8sex0Vscan31o2F2ndg" 1000,
   .authorize
     { responseType := "code", clientId := sampleClient, redirectUri := sampleRedirect
       codeChallenge := sampleRequest.codeChallenge, codeChallengeMethod := "S256"
       resource := sampleServer.resource } 0,
   .insertPending sampleRequest "357PTHnlrXdwHPyIwZZjKzUxSdhYEKOB9Gn4_AXcG5I" 0,
   .decide
     { requestId := "357PTHnlrXdwHPyIwZZjKzUxSdhYEKOB9Gn4_AXcG5I"
       ownerKey := "AAAAAAAAAAAAAAAAAAAAAAAAAAAAAAAAAAAAAAAAAAA", decision := "approve" } 0,
   .issueCode sampleRequest "NbD60WdYtYEk858A0mBhcEUUvk45weA7eyNTSv1ggeM" 1000,
   .token
     { grantType := "authorization_code", clientId := sampleClient
       code := some "NbD60WdYtYEk858A0mBhcEUUvk45weA7eyNTSv1ggeM"
       redirectUri := some sampleRedirect, codeVerifier := some sampleVerifier
       resource := some sampleServer.resource }
     { accessToken := "ueHpsGjJSvASnSD3daOV5OCrKM0gJvRe6gghtyv1jZM", refreshToken := firstRefresh
       grantId := "vrRBNw_5ty2OVCztcKC_jKocdACGLpQNu33Fkdk4BAY"
       familyId := "P9h9-Cw9TYo1IXKbJ2B6jnPfBOKzAU6sJ20GOX7XcvI" } 1000,
   sampleRotation firstRefresh "zY9Mmp_d8ZsCNfz0psqjM4RxI-FUGudMd7kKeSaccUU" secondRefresh 2000]

def sampleGrant : String := "vrRBNw_5ty2OVCztcKC_jKocdACGLpQNu33Fkdk4BAY"

def sampleIssue : TokenIssue where
  grantId := sampleGrant
  accessToken := "ueHpsGjJSvASnSD3daOV5OCrKM0gJvRe6gghtyv1jZM"
  refreshToken := firstRefresh
  issuedAt := 1000

/-- The used token is presented again after its lifetime, and the family rotates on. -/
def lateReplay : OAuthCall :=
  sampleRotation firstRefresh "K1A5u1tYaabLDiR8U2OHyRiUPIY3xDwfTd2DZFpHZ9c"
    "Zo5gKugs4ZNF2gFZyrqZhjmMTZ9rgVp4WQZ8E9bq3fE" (1000 + refreshTtlSeconds)

def lateAccess : String := "2qfkENzxQVbTqzqU9CqtK0OAa54tUMKmMkHB1q7iOOU"

def lateCalls : List OAuthCall :=
  sampleCalls ++ lateReplay ::
    [sampleRotation secondRefresh lateAccess "qe0ot-aspMEDAP70j7GaTYfXDm7iXUMDI1H1IyNJKMY"
      (1001 + refreshTtlSeconds)]

/-- What the client presented for the grant. -/
def sampleExchange : CodeExchange where
  code := "NbD60WdYtYEk858A0mBhcEUUvk45weA7eyNTSv1ggeM"
  clientId := sampleClient
  redirectUri := sampleRedirect
  resource := sampleServer.resource
  codeVerifier := sampleVerifier
  familyId := "P9h9-Cw9TYo1IXKbJ2B6jnPfBOKzAU6sJ20GOX7XcvI"
  issue := sampleIssue

theorem sampleCalls_trace : (oauthRun sampleCrates sampleServer sampleCalls).2 =
    [.approved sampleRequest, .issued sampleExchange.code sampleRequest,
      .exchanged sampleExchange,
      .rotated firstRefresh
        ⟨sampleGrant, "zY9Mmp_d8ZsCNfz0psqjM4RxI-FUGudMd7kKeSaccUU", secondRefresh, 2000⟩] := by
  decide +kernel

theorem sampleIssue_mem :
    sampleIssue ∈ issuesOf (oauthRun sampleCrates sampleServer sampleCalls).2 sampleGrant := by
  rw [sampleCalls_trace, mem_issuesOf]
  exact ⟨rfl, .exchanged sampleExchange, by simp, rfl⟩

theorem sampleExchange_mem :
    .exchanged sampleExchange ∈ (oauthRun sampleCrates sampleServer sampleCalls).2 := by
  rw [sampleCalls_trace]
  simp

theorem sampleCalls_used : RotatedHash sampleCrates
    (oauthRun sampleCrates sampleServer sampleCalls).2 (sampleCrates.tokenHash firstRefresh) := by
  rw [sampleCalls_trace]
  exact ⟨firstRefresh, _, by simp; rfl, rfl⟩

/-- The used token is presented again within its lifetime. -/
def timelyReplay : OAuthCall :=
  sampleRotation firstRefresh "K1A5u1tYaabLDiR8U2OHyRiUPIY3xDwfTd2DZFpHZ9c"
    "Zo5gKugs4ZNF2gFZyrqZhjmMTZ9rgVp4WQZ8E9bq3fE" 3000

/-- The grant of the first tokens is ended by the replay. -/
theorem oauth_authority_timely_replay :
    NeverAccepted sampleCrates sampleServer
      (oauthRun sampleCrates sampleServer (sampleCalls ++ [timelyReplay])).1.database
      sampleIssue := by
  have hlive : ¬ Elapsed (clockReadings sampleCalls ++ [3000])
      (sampleIssue.issuedAt + refreshTtlSeconds) := by
    unfold Elapsed
    decide
  have hissue : sampleIssue ∈ issuesOf
      (oauthRun sampleCrates sampleServer (sampleCalls ++ [timelyReplay])).2 sampleGrant := by
    obtain ⟨more, hmore⟩ := oauthRun_prefix sampleCrates sampleServer sampleCalls [timelyReplay]
    rw [hmore, issuesOf_append]
    exact List.mem_append_left _ sampleIssue_mem
  have hends : EndsByCall sampleCrates sampleServer sampleCalls
      (oauthRun sampleCrates sampleServer sampleCalls).2 sampleGrant timelyReplay :=
    EndsByCall.replay rfl rfl sampleIssue_mem rfl sampleCalls_used sampleExchange_mem rfl rfl rfl
      hlive
  exact (oauth_authority sampleCrates sampleServer (sampleCalls ++ [timelyReplay])
    (by decide +kernel)).2.2 sampleCalls timelyReplay [] sampleGrant rfl hends sampleIssue hissue

/-- A used refresh token that its client presents after its lifetime ends nothing: an
access token of the same grant is handed out and accepted later. -/
theorem oauth_late_replay_ends_nothing :
    FreshDraws sampleCrates lateCalls ∧
      sampleIssue ∈ issuesOf (oauthRun sampleCrates sampleServer sampleCalls).2 sampleGrant ∧
      RotatedHash sampleCrates (oauthRun sampleCrates sampleServer sampleCalls).2
        (sampleCrates.tokenHash sampleIssue.refreshToken) ∧
      .exchanged sampleExchange ∈ (oauthRun sampleCrates sampleServer sampleCalls).2 ∧
      lateReplay = sampleRotation sampleIssue.refreshToken
        "K1A5u1tYaabLDiR8U2OHyRiUPIY3xDwfTd2DZFpHZ9c"
        "Zo5gKugs4ZNF2gFZyrqZhjmMTZ9rgVp4WQZ8E9bq3fE" (1000 + refreshTtlSeconds) ∧
      (∃ issue ∈ issuesOf (oauthRun sampleCrates sampleServer lateCalls).2 sampleGrant,
        issue.accessToken = lateAccess) ∧
      authorizeAccess sampleCrates sampleServer
        (oauthRun sampleCrates sampleServer lateCalls).1.database (1002 + refreshTtlSeconds)
          lateAccess = true :=
  ⟨by decide +kernel, sampleIssue_mem, sampleCalls_used, sampleExchange_mem, rfl,
    by decide +kernel⟩

end Memex.Mcp
