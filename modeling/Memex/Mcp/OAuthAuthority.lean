import Memex.Mcp.OAuthRuns

/-! # The authority invariant

The rows of the tables stand for what the trace says, and the tokens that the trace
still holds good are in the tables. Every call keeps both. -/

namespace Memex.Mcp

open OAuthEvent

variable {Hash : Type} {crates : OAuthCrates Hash} {server : OAuthServer}

/-! ## Facts about traces -/

/-- The hashed random values of an event. -/
def OAuthEvent.names (crates : OAuthCrates Hash) (event : OAuthEvent) : List Hash :=
  event.draws.map crates.tokenHash

/-- No random value of the trace came twice. -/
def FreshTrace (crates : OAuthCrates Hash) (trace : List OAuthEvent) : Prop :=
  (trace.flatMap (OAuthEvent.names crates)).Nodup

theorem freshTrace_of_sublist {calls : List OAuthCall} {trace : List OAuthEvent}
    (hfresh : FreshDraws crates calls)
    (h : (trace.flatMap draws).Sublist (calls.flatMap OAuthCall.draws)) :
    FreshTrace crates trace := by
  have hnames : trace.flatMap (OAuthEvent.names crates) =
      (trace.flatMap draws).map crates.tokenHash := by
    rw [List.map_flatMap]
    rfl
  rw [FreshTrace, hnames]
  exact (h.map crates.tokenHash).nodup hfresh

theorem FreshTrace.of_append {trace more : List OAuthEvent}
    (h : FreshTrace crates (trace ++ more)) : FreshTrace crates trace := by
  rw [FreshTrace, List.flatMap_append] at h
  exact (List.nodup_append.mp h).1

theorem mem_issuesOf {trace : List OAuthEvent} {grantId : String} {issue : TokenIssue} :
    issue ∈ issuesOf trace grantId ↔
      issue.grantId = grantId ∧ ∃ event ∈ trace, event.issue? = some issue := by
  simp only [issuesOf, List.mem_filter, List.mem_filterMap, decide_eq_true_eq]
  exact and_comm

theorem issuesOf_append (trace more : List OAuthEvent) (grantId : String) :
    issuesOf (trace ++ more) grantId = issuesOf trace grantId ++ issuesOf more grantId := by
  simp [issuesOf]

variable (crates) in
theorem mem_names_of_issue {event : OAuthEvent} {issue : TokenIssue}
    (h : event.issue? = some issue) :
    crates.tokenHash issue.accessToken ∈ event.names crates ∧
      crates.tokenHash issue.refreshToken ∈ event.names crates := by
  cases event with
  | exchanged exchange =>
      cases h
      exact ⟨by simp [OAuthEvent.names, draws], by simp [OAuthEvent.names, draws]⟩
  | rotated presented rotated =>
      cases h
      exact ⟨by simp [OAuthEvent.names, draws], by simp [OAuthEvent.names, draws]⟩
  | approved request => cases h
  | issued code request => cases h
  | replayed grantId => cases h
  | revoked grantId => cases h
  | revokedAll => cases h

/-- An access or a refresh token belongs to one issue. -/
theorem FreshTrace.issue_eq {trace : List OAuthEvent} (hfresh : FreshTrace crates trace)
    {left right : String} {issue other : TokenIssue} (hissue : issue ∈ issuesOf trace left)
    (hother : other ∈ issuesOf trace right)
    (hshared : crates.tokenHash issue.accessToken = crates.tokenHash other.accessToken ∨
      crates.tokenHash issue.refreshToken = crates.tokenHash other.refreshToken) :
    issue = other := by
  obtain ⟨-, event, hevent, hissue⟩ := mem_issuesOf.mp hissue
  obtain ⟨-, event', hevent', hother⟩ := mem_issuesOf.mp hother
  have hnames := mem_names_of_issue crates hissue
  have hnames' := mem_names_of_issue crates hother
  have hsame : event = event' := by
    obtain haccess | hrefresh := hshared
    · exact Trace.eq_of_mem_names hfresh hevent hevent' hnames.1 (haccess ▸ hnames'.1)
    · exact Trace.eq_of_mem_names hfresh hevent hevent' hnames.2 (hrefresh ▸ hnames'.2)
  rw [hsame, hother] at hissue
  exact (Option.some.inj hissue).symm

/-- No access token is a refresh token. -/
theorem FreshTrace.access_ne_refresh {trace : List OAuthEvent} (hfresh : FreshTrace crates trace)
    {left right : String} {issue other : TokenIssue} (hissue : issue ∈ issuesOf trace left)
    (hother : other ∈ issuesOf trace right) :
    crates.tokenHash issue.accessToken ≠ crates.tokenHash other.refreshToken := by
  intro hshared
  obtain ⟨-, event, hevent, hissue⟩ := mem_issuesOf.mp hissue
  obtain ⟨-, event', hevent', hother⟩ := mem_issuesOf.mp hother
  have hnames := mem_names_of_issue crates hissue
  have hnames' := mem_names_of_issue crates hother
  obtain rfl : event = event' :=
    Trace.eq_of_mem_names hfresh hevent hevent' hnames.1 (hshared ▸ hnames'.2)
  have hnodup : (event.names crates).Nodup := by
    obtain ⟨before, after, rfl⟩ := List.append_of_mem hevent
    rw [FreshTrace, List.flatMap_append, List.flatMap_cons, List.nodup_append] at hfresh
    exact (List.nodup_append.mp hfresh.2.1).1
  obtain rfl : issue = other := by
    rw [hissue] at hother
    exact Option.some.inj hother
  cases event with
  | exchanged exchange =>
      cases hissue
      simp [OAuthEvent.names, draws, hshared] at hnodup
  | rotated presented rotated =>
      cases hissue
      simp [OAuthEvent.names, draws, hshared] at hnodup
  | approved request => cases hissue
  | issued code request => cases hissue
  | replayed grantId => cases hissue
  | revoked grantId => cases hissue
  | revokedAll => cases hissue

/-- A grant and a family belong to one exchange. -/
theorem FreshTrace.exchange_eq {trace : List OAuthEvent} (hfresh : FreshTrace crates trace)
    {exchange other : CodeExchange} (hexchange : .exchanged exchange ∈ trace)
    (hother : .exchanged other ∈ trace)
    (hshared : exchange.issue.grantId = other.issue.grantId ∨
      exchange.familyId = other.familyId) : exchange = other := by
  have hsame : OAuthEvent.exchanged exchange = .exchanged other := by
    obtain hgrant | hfamily := hshared
    · have hname : crates.tokenHash exchange.issue.grantId ∈
          (OAuthEvent.exchanged exchange).names crates := by
        simp [OAuthEvent.names, draws]
      exact Trace.eq_of_mem_names hfresh hexchange hother hname
        (by simp [OAuthEvent.names, draws, hgrant])
    · have hname : crates.tokenHash exchange.familyId ∈
          (OAuthEvent.exchanged exchange).names crates := by
        simp [OAuthEvent.names, draws]
      exact Trace.eq_of_mem_names hfresh hexchange hother hname
        (by simp [OAuthEvent.names, draws, hfamily])
  exact OAuthEvent.exchanged.inj hsame

/-- Tokens are handed out for grants that an exchange created. -/
theorem exists_exchange_of_issue {trace : List OAuthEvent} {grantId : String}
    (hjustified : Trace.Always (Justified crates server) trace)
    (hissue : issuesOf trace grantId ≠ []) :
    ∃ exchange, .exchanged exchange ∈ trace ∧ exchange.issue.grantId = grantId := by
  induction trace using List.reverseRecOn with
  | nil => exact absurd rfl hissue
  | append_singleton trace event ih =>
      obtain ⟨hbefore, hevent⟩ := Trace.always_concat.mp hjustified
      have hearlier : issuesOf trace grantId ≠ [] →
          ∃ exchange, .exchanged exchange ∈ trace ++ [event] ∧
            exchange.issue.grantId = grantId := by
        intro hne
        obtain ⟨exchange, hmem, hgrant⟩ := ih hbefore hne
        exact ⟨exchange, List.mem_append_left _ hmem, hgrant⟩
      by_cases hne : issuesOf trace grantId = []
      · rw [issuesOf_append, hne, List.nil_append] at hissue
        obtain ⟨issue, hmem⟩ := List.exists_mem_of_ne_nil _ hissue
        obtain ⟨hgrant, event', hevent', hissued⟩ := mem_issuesOf.mp hmem
        rw [List.mem_singleton.mp hevent'] at hissued
        cases event with
        | exchanged exchange =>
            cases hissued
            exact ⟨exchange, by simp, hgrant⟩
        | rotated presented rotated =>
            cases hissued
            obtain ⟨earlier, hmem, -⟩ := hevent
            rw [hgrant, hne] at hmem
            cases hmem
        | approved request => cases hissued
        | issued code request => cases hissued
        | replayed id => cases hissued
        | revoked id => cases hissued
        | revokedAll => cases hissued
      · exact hearlier hne

/-- Only grants with tokens are ended. -/
theorem issuesOf_ne_nil_of_ended {trace : List OAuthEvent} {grantId : String}
    (hjustified : Trace.Always (Justified crates server) trace) (h : Ended trace grantId) :
    issuesOf trace grantId ≠ [] := by
  obtain ⟨before, event, after, rfl, hends⟩ := h
  have hjust := hjustified before event after rfl
  have hbefore : issuesOf before grantId ≠ [] := by
    cases event with
    | replayed id =>
        subst hends
        exact hjust
    | revoked id =>
        subst hends
        exact hjust
    | revokedAll => exact hends
    | approved request => cases hends
    | issued code request => cases hends
    | exchanged exchange => cases hends
    | rotated presented issue => cases hends
  rw [issuesOf_append]
  simp [hbefore]

theorem Ended.append {trace : List OAuthEvent} {grantId : String} (h : Ended trace grantId)
    (more : List OAuthEvent) : Ended (trace ++ more) grantId :=
  Trace.Occurs.append h more

/-- A rotated token was handed out. -/
theorem exists_issue_of_rotated {trace : List OAuthEvent} {hash : Hash}
    (hjustified : Trace.Always (Justified crates server) trace)
    (h : RotatedHash crates trace hash) :
    ∃ grantId, ∃ issue ∈ issuesOf trace grantId, crates.tokenHash issue.refreshToken = hash := by
  obtain ⟨presented, issue, hmem, rfl⟩ := h
  obtain ⟨before, after, rfl, earlier, hearlier, hhash⟩ := hjustified.of_mem hmem
  refine ⟨issue.grantId, earlier, ?_, hhash⟩
  rw [issuesOf_append]
  exact List.mem_append_left _ hearlier

theorem latestIssue_mem {trace : List OAuthEvent} {grantId : String} {issue : TokenIssue}
    (h : latestIssue trace grantId = some issue) : issue ∈ issuesOf trace grantId :=
  List.mem_of_getLast? h

/-- A grant of the tables was exchanged for. -/
theorem issuesOf_ne_nil_of_exchange {trace : List OAuthEvent} {exchange : CodeExchange}
    (hmem : .exchanged exchange ∈ trace) : issuesOf trace exchange.issue.grantId ≠ [] := by
  have hissue : exchange.issue ∈ issuesOf trace exchange.issue.grantId :=
    mem_issuesOf.mpr ⟨rfl, _, hmem, rfl⟩
  exact List.ne_nil_of_mem hissue

/-- Before its exchange a grant has no tokens. -/
theorem issuesOf_eq_nil_of_fresh {trace : List OAuthEvent} {exchange : CodeExchange}
    (hjustified : Trace.Always (Justified crates server) trace)
    (hfresh : FreshTrace crates (trace ++ [OAuthEvent.exchanged exchange])) :
    issuesOf trace exchange.issue.grantId = [] := by
  by_contra hne
  obtain ⟨other, hmem, hgrant⟩ := exists_exchange_of_issue hjustified hne
  have hname : crates.tokenHash exchange.issue.grantId ∈
      (OAuthEvent.exchanged exchange).names crates := by
    simp [OAuthEvent.names, draws]
  refine Trace.not_mem_names_of_concat hfresh hmem hname ?_
  simp [OAuthEvent.names, draws, hgrant]

/-- A refresh token that is handed out now was not handed out before. -/
theorem refreshHash_ne_of_fresh {trace : List OAuthEvent} {event : OAuthEvent}
    {issue : TokenIssue} (hfresh : FreshTrace crates (trace ++ [event]))
    (hissue : event.issue? = some issue) :
    ∀ grantId, ∀ earlier ∈ issuesOf trace grantId,
      crates.tokenHash earlier.refreshToken ≠ crates.tokenHash issue.refreshToken := by
  intro grantId earlier hearlier hshared
  obtain ⟨-, other, hother, hissued⟩ := mem_issuesOf.mp hearlier
  have hname := (mem_names_of_issue crates hissue).2
  have hname' := (mem_names_of_issue crates hissued).2
  exact Trace.not_mem_names_of_concat hfresh hother hname (hshared ▸ hname')

/-! ## The invariant -/

/-- The code was issued for an approved request and is still to be exchanged. -/
structure CodeStands (crates : OAuthCrates Hash) (trace : List OAuthEvent)
    (row : OAuthCode Hash) : Prop where
  issued : ∃ code request, .issued code request ∈ trace ∧ crates.tokenHash code = row.codeHash ∧
    request.clientId = row.clientId ∧ request.redirectUri = row.redirectUri ∧
    request.resource = row.resource ∧ request.codeChallenge = row.codeChallenge
  unused : ∀ exchange, .exchanged exchange ∈ trace →
    crates.tokenHash exchange.code ≠ row.codeHash

/-- The grant was created by an exchange, and it is revoked exactly when it was ended. -/
structure GrantStands (trace : List OAuthEvent) (row : OAuthGrant) : Prop where
  exchanged : ∃ exchange, .exchanged exchange ∈ trace ∧ exchange.issue.grantId = row.id ∧
    exchange.familyId = row.familyId ∧ exchange.clientId = row.clientId
  revoked_iff : row.revokedAt.isSome = true ↔ Ended trace row.id

/-- The access token is the latest one of a grant that goes on. -/
structure AccessStands (crates : OAuthCrates Hash) (trace : List OAuthEvent)
    (row : AccessToken Hash) : Prop where
  not_ended : ¬ Ended trace row.grantId
  latest : ∃ issue, latestIssue trace row.grantId = some issue ∧
    crates.tokenHash issue.accessToken = row.tokenHash ∧
    row.expiresAt = issue.issuedAt + accessTtlSeconds

/-- The refresh token is one of a grant that goes on, and it is used when it was
rotated. -/
structure RefreshStands (crates : OAuthCrates Hash) (trace : List OAuthEvent)
    (row : RefreshToken Hash) : Prop where
  not_ended : ¬ Ended trace row.grantId
  issued : ∃ issue ∈ issuesOf trace row.grantId,
    crates.tokenHash issue.refreshToken = row.tokenHash ∧
    row.expiresAt = issue.issuedAt + refreshTtlSeconds
  exchanged : ∃ exchange, .exchanged exchange ∈ trace ∧ exchange.issue.grantId = row.grantId ∧
    exchange.familyId = row.familyId ∧ exchange.clientId = row.clientId ∧
    exchange.resource = row.resource
  used_iff : row.usedAt.isSome = true ↔ RotatedHash crates trace row.tokenHash

/-- Every row stands for what the trace says, and every token has its grant. -/
structure TablesStand (crates : OAuthCrates Hash) (trace : List OAuthEvent)
    (database : OAuthDatabase Hash) : Prop where
  codes : ∀ row ∈ database.codes, CodeStands crates trace row
  grants : ∀ row ∈ database.grants, GrantStands trace row
  accessTokens : ∀ row ∈ database.accessTokens, AccessStands crates trace row ∧
    ∃ grant ∈ database.grants, grant.id = row.grantId
  refreshTokens : ∀ row ∈ database.refreshTokens, RefreshStands crates trace row ∧
    ∃ grant ∈ database.grants, grant.id = row.grantId

/-- Some reading of the clock has come to the deadline. -/
def Elapsed (readings : List Int) (deadline : Int) : Prop :=
  ∃ now ∈ readings, deadline ≤ now

/-- Tokens that were handed out are in the tables until they expire or their grant ends:
the latest access tokens, and the refresh tokens also after their use. -/
structure TablesKeep (crates : OAuthCrates Hash) (readings : List Int)
    (trace : List OAuthEvent) (database : OAuthDatabase Hash) : Prop where
  access : ∀ grantId issue, latestIssue trace grantId = some issue →
    Ended trace grantId ∨ Elapsed readings (issue.issuedAt + accessTtlSeconds) ∨
      ∃ row ∈ database.accessTokens, row.tokenHash = crates.tokenHash issue.accessToken ∧
        row.grantId = grantId ∧ row.expiresAt = issue.issuedAt + accessTtlSeconds
  refresh : ∀ grantId, ∀ issue ∈ issuesOf trace grantId,
    Ended trace grantId ∨ Elapsed readings (issue.issuedAt + refreshTtlSeconds) ∨
      ∃ row ∈ database.refreshTokens, row.tokenHash = crates.tokenHash issue.refreshToken ∧
        row.grantId = grantId ∧ row.expiresAt = issue.issuedAt + refreshTtlSeconds

/-- The invariant of a run, after calls that read the clock as listed. -/
structure Authority (crates : OAuthCrates Hash) (server : OAuthServer) (readings : List Int)
    (trace : List OAuthEvent) (database : OAuthDatabase Hash) : Prop where
  justified : Trace.Always (Justified crates server) trace
  stands : TablesStand crates trace database
  keeps : TablesKeep crates readings trace database

theorem Elapsed.append {readings : List Int} {deadline : Int} (h : Elapsed readings deadline)
    (more : List Int) : Elapsed (readings ++ more) deadline := by
  obtain ⟨now, hmem, hle⟩ := h
  exact ⟨now, List.mem_append_left more hmem, hle⟩

theorem Authority.read {readings : List Int} {trace : List OAuthEvent}
    {database : OAuthDatabase Hash} (h : Authority crates server readings trace database)
    (more : List Int) : Authority crates server (readings ++ more) trace database := by
  refine ⟨h.justified, h.stands, ⟨?_, ?_⟩⟩
  · intro grantId issue hissue
    exact (h.keeps.access grantId issue hissue).imp_right
      fun hrest => hrest.imp_left fun helapsed => helapsed.append more
  · intro grantId issue hissue
    exact (h.keeps.refresh grantId issue hissue).imp_right
      fun hrest => hrest.imp_left fun helapsed => helapsed.append more

/-! ## Deletions -/

/-- Other rows of clients, and fewer codes. -/
theorem Authority.of_codes {readings : List Int} {trace : List OAuthEvent}
    {database other : OAuthDatabase Hash}
    (h : Authority crates server readings trace database)
    (hcodes : ∀ row ∈ other.codes, row ∈ database.codes) (hgrants : other.grants = database.grants)
    (haccess : other.accessTokens = database.accessTokens)
    (hrefresh : other.refreshTokens = database.refreshTokens) :
    Authority crates server readings trace other := by
  refine ⟨h.justified, ⟨fun row hrow => h.stands.codes row (hcodes row hrow), ?_, ?_, ?_⟩, ?_⟩
  · rw [hgrants]
    exact h.stands.grants
  · rw [haccess, hgrants]
    exact h.stands.accessTokens
  · rw [hrefresh, hgrants]
    exact h.stands.refreshTokens
  · constructor
    · rw [haccess]
      exact h.keeps.access
    · rw [hrefresh]
      exact h.keeps.refresh

theorem Authority.pruneCodes {readings : List Int} {trace : List OAuthEvent}
    {database : OAuthDatabase Hash} (h : Authority crates server readings trace database)
    (now : Int) : Authority crates server readings trace (database.pruneCodes now) :=
  h.of_codes (fun _ hrow => List.mem_of_mem_filter hrow) rfl rfl rfl

theorem Authority.deleteClients {readings : List Int} {trace : List OAuthEvent}
    {database other : OAuthDatabase Hash} (h : Authority crates server readings trace database)
    {condition : OAuthClient → Bool} (hdeleted : database.deleteClients condition = some other) :
    Authority crates server readings trace other := by
  simp only [OAuthDatabase.deleteClients] at hdeleted
  split at hdeleted
  · cases hdeleted
  · cases hdeleted
    exact h.of_codes (fun _ hrow => List.mem_of_mem_filter hrow) rfl rfl rfl

theorem Authority.pruneAccessTokens {readings : List Int} {trace : List OAuthEvent}
    {database : OAuthDatabase Hash} (h : Authority crates server readings trace database)
    {now : Int} (hnow : now ∈ readings) :
    Authority crates server readings trace (database.pruneAccessTokens now) := by
  refine ⟨h.justified, ⟨h.stands.codes, h.stands.grants, ?_, h.stands.refreshTokens⟩,
    ⟨?_, h.keeps.refresh⟩⟩
  · exact fun row hrow => h.stands.accessTokens row (List.mem_of_mem_filter hrow)
  · intro grantId issue hissue
    obtain hended | helapsed | ⟨row, hrow, hhash, hgrant, hexpires⟩ :=
      h.keeps.access grantId issue hissue
    · exact Or.inl hended
    · exact Or.inr (Or.inl helapsed)
    · by_cases hlive : now < row.expiresAt
      · exact Or.inr (Or.inr ⟨row, List.mem_filter.mpr ⟨hrow, by simpa using hlive⟩, hhash,
          hgrant, hexpires⟩)
      · exact Or.inr (Or.inl ⟨now, hnow, by omega⟩)

theorem Authority.pruneRefreshTokens {readings : List Int} {trace : List OAuthEvent}
    {database : OAuthDatabase Hash} (h : Authority crates server readings trace database)
    {now : Int} (hnow : now ∈ readings) :
    Authority crates server readings trace (database.pruneRefreshTokens now) := by
  refine ⟨h.justified, ⟨h.stands.codes, h.stands.grants, h.stands.accessTokens, ?_⟩,
    ⟨h.keeps.access, ?_⟩⟩
  · exact fun row hrow => h.stands.refreshTokens row (List.mem_of_mem_filter hrow)
  · intro grantId issue hissue
    obtain hended | helapsed | ⟨row, hrow, hhash, hgrant, hexpires⟩ :=
      h.keeps.refresh grantId issue hissue
    · exact Or.inl hended
    · exact Or.inr (Or.inl helapsed)
    · by_cases hlive : now < row.expiresAt
      · exact Or.inr (Or.inr ⟨row, List.mem_filter.mpr ⟨hrow, by simpa using hlive⟩, hhash,
          hgrant, hexpires⟩)
      · exact Or.inr (Or.inl ⟨now, hnow, by omega⟩)

/-- Deleting grants that were ended or have no tokens. -/
theorem Authority.deleteGrants {readings : List Int} {trace : List OAuthEvent}
    {database : OAuthDatabase Hash} (h : Authority crates server readings trace database)
    {condition : OAuthGrant → Bool}
    (hcondition : ∀ grant ∈ database.grants, condition grant = true →
      Ended trace grant.id ∨ ((∀ row ∈ database.accessTokens, row.grantId ≠ grant.id) ∧
        ∀ row ∈ database.refreshTokens, row.grantId ≠ grant.id)) :
    Authority crates server readings trace (database.deleteGrants condition) := by
  have hkept : ∀ grantId : String, (¬ ∃ grant ∈ database.grants, condition grant = true ∧
      grant.id = grantId) → ((database.grants.filter condition).map OAuthGrant.id).contains
        grantId = false := by
    intro grantId hnone
    simpa [List.mem_filter, and_assoc] using hnone
  have hgrant : ∀ grantId : String, ((database.grants.filter condition).map
      OAuthGrant.id).contains grantId = false → (∃ grant ∈ database.grants, grant.id = grantId) →
        ∃ grant ∈ database.grants.filter fun grant => !condition grant, grant.id = grantId := by
    rintro grantId hnone ⟨grant, hmem, rfl⟩
    refine ⟨grant, List.mem_filter.mpr ⟨hmem, ?_⟩, rfl⟩
    cases hdeleted : condition grant with
    | false => rfl
    | true =>
        have hin : ((database.grants.filter condition).map OAuthGrant.id).contains grant.id =
            true := by
          simpa using ⟨grant, ⟨hmem, hdeleted⟩, rfl⟩
        rw [hin] at hnone
        cases hnone
  refine ⟨h.justified, ⟨h.stands.codes, ?_, ?_, ?_⟩, ⟨?_, ?_⟩⟩
  · exact fun row hrow => h.stands.grants row (List.mem_of_mem_filter hrow)
  · intro row hrow
    obtain ⟨hmem, hnot⟩ := List.mem_filter.mp hrow
    obtain ⟨hstands, hexists⟩ := h.stands.accessTokens row hmem
    exact ⟨hstands, hgrant _ (by simpa using hnot) hexists⟩
  · intro row hrow
    obtain ⟨hmem, hnot⟩ := List.mem_filter.mp hrow
    obtain ⟨hstands, hexists⟩ := h.stands.refreshTokens row hmem
    exact ⟨hstands, hgrant _ (by simpa using hnot) hexists⟩
  · intro grantId issue hissue
    refine (h.keeps.access grantId issue hissue).imp_right fun hrest => hrest.imp_right ?_
    rintro ⟨row, hrow, hhash, rfl, hexpires⟩
    refine ⟨row, List.mem_filter.mpr ⟨hrow, ?_⟩, hhash, rfl, hexpires⟩
    rw [hkept row.grantId ?_]
    · rfl
    · rintro ⟨grant, hmem, hdeleted, hid⟩
      obtain hended | ⟨hnone, -⟩ := hcondition grant hmem hdeleted
      · exact (h.stands.accessTokens row hrow).1.not_ended (hid ▸ hended)
      · exact hnone row hrow hid.symm
  · intro grantId issue hissue
    refine (h.keeps.refresh grantId issue hissue).imp_right fun hrest => hrest.imp_right ?_
    rintro ⟨row, hrow, hhash, rfl, hexpires⟩
    refine ⟨row, List.mem_filter.mpr ⟨hrow, ?_⟩, hhash, rfl, hexpires⟩
    rw [hkept row.grantId ?_]
    · rfl
    · rintro ⟨grant, hmem, hdeleted, hid⟩
      obtain hended | ⟨-, hnone⟩ := hcondition grant hmem hdeleted
      · exact (h.stands.refreshTokens row hrow).1.not_ended (hid ▸ hended)
      · exact hnone row hrow hid.symm

theorem Authority.pruneGrants {readings : List Int} {trace : List OAuthEvent}
    {database : OAuthDatabase Hash} (h : Authority crates server readings trace database)
    (now : Int) : Authority crates server readings trace (database.pruneGrants now) := by
  refine h.deleteGrants fun grant hmem hdeleted => ?_
  rw [Bool.or_eq_true] at hdeleted
  obtain hold | hnone := hdeleted
  · left
    rw [← (h.stands.grants grant hmem).revoked_iff]
    cases hrevoked : grant.revokedAt with
    | none => simp [hrevoked] at hold
    | some revokedAt => rfl
  · right
    simpa using hnone

theorem Authority.prune {readings : List Int} {trace : List OAuthEvent}
    {database : OAuthDatabase Hash} (h : Authority crates server readings trace database)
    {now : Int} (hnow : now ∈ readings) :
    Authority crates server readings trace (database.prune now) :=
  (((h.pruneCodes now).pruneAccessTokens hnow).pruneRefreshTokens hnow).pruneGrants now

theorem Authority.evictRevoked {readings : List Int} {trace : List OAuthEvent}
    {database : OAuthDatabase Hash} (h : Authority crates server readings trace database) :
    Authority crates server readings trace database.evictRevoked := by
  rw [OAuthDatabase.evictRevoked]
  split
  · split
    · rename_i oldest holdest
      refine h.deleteGrants fun grant hmem hdeleted => Or.inl ?_
      obtain ⟨hin, hrevoked⟩ := List.mem_filter.mp (List.argmin_mem holdest)
      rw [decide_eq_true_eq] at hdeleted
      rw [hdeleted, ← (h.stands.grants oldest hin).revoked_iff]
      exact hrevoked
    · exact h
  · exact h

/-! ## Events -/

theorem ended_concat {trace : List OAuthEvent} {event : OAuthEvent} {grantId : String} :
    Ended (trace ++ [event]) grantId ↔ Ended trace grantId ∨ Ends grantId trace event :=
  Trace.occurs_concat

theorem rotatedHash_concat {trace : List OAuthEvent} {event : OAuthEvent} {hash : Hash} :
    RotatedHash crates (trace ++ [event]) hash ↔ RotatedHash crates trace hash ∨
      ∃ presented issue, event = .rotated presented issue ∧ crates.tokenHash presented = hash := by
  constructor
  · rintro ⟨presented, issue, hmem, hhash⟩
    obtain hmem | hmem := List.mem_append.mp hmem
    · exact Or.inl ⟨presented, issue, hmem, hhash⟩
    · exact Or.inr ⟨presented, issue, (List.mem_singleton.mp hmem).symm, hhash⟩
  · rintro (⟨presented, issue, hmem, hhash⟩ | ⟨presented, issue, rfl, hhash⟩)
    · exact ⟨presented, issue, List.mem_append_left _ hmem, hhash⟩
    · exact ⟨presented, issue, by simp, hhash⟩

theorem issuesOf_concat_of_ne {trace : List OAuthEvent} {event : OAuthEvent} {grantId : String}
    (h : ∀ issue, event.issue? = some issue → issue.grantId ≠ grantId) :
    issuesOf (trace ++ [event]) grantId = issuesOf trace grantId := by
  have hnone : issuesOf [event] grantId = [] := by
    rw [List.eq_nil_iff_forall_not_mem]
    intro issue hmem
    obtain ⟨hgrant, event', hevent, hissue⟩ := mem_issuesOf.mp hmem
    rw [List.mem_singleton.mp hevent] at hissue
    exact h issue hissue hgrant
  rw [issuesOf_append, hnone, List.append_nil]

theorem issuesOf_concat {trace : List OAuthEvent} {event : OAuthEvent} {issue : TokenIssue}
    (h : event.issue? = some issue) :
    issuesOf (trace ++ [event]) issue.grantId = issuesOf trace issue.grantId ++ [issue] := by
  rw [issuesOf_append]
  simp [issuesOf, h]

theorem latestIssue_concat {trace : List OAuthEvent} {event : OAuthEvent} {issue : TokenIssue}
    (h : event.issue? = some issue) :
    latestIssue (trace ++ [event]) issue.grantId = some issue := by
  rw [latestIssue, issuesOf_concat h]
  simp

theorem latestIssue_concat_of_ne {trace : List OAuthEvent} {event : OAuthEvent}
    {grantId : String} (h : ∀ issue, event.issue? = some issue → issue.grantId ≠ grantId) :
    latestIssue (trace ++ [event]) grantId = latestIssue trace grantId := by
  rw [latestIssue, issuesOf_concat_of_ne h, latestIssue]

theorem CodeStands.concat {trace : List OAuthEvent} {event : OAuthEvent} {row : OAuthCode Hash}
    (h : CodeStands crates trace row)
    (hunused : ∀ exchange, event = .exchanged exchange →
      crates.tokenHash exchange.code ≠ row.codeHash) :
    CodeStands crates (trace ++ [event]) row := by
  obtain ⟨code, request, hmem, hrow⟩ := h.issued
  refine ⟨⟨code, request, List.mem_append_left _ hmem, hrow⟩, fun exchange hexchange => ?_⟩
  obtain hexchange | hexchange := List.mem_append.mp hexchange
  · exact h.unused exchange hexchange
  · exact hunused exchange (List.mem_singleton.mp hexchange).symm

theorem GrantStands.concat {trace : List OAuthEvent} {event : OAuthEvent} {row : OAuthGrant}
    (h : GrantStands trace row) (hends : ¬ Ends row.id trace event) :
    GrantStands (trace ++ [event]) row := by
  obtain ⟨exchange, hmem, hrow⟩ := h.exchanged
  refine ⟨⟨exchange, List.mem_append_left _ hmem, hrow⟩, ?_⟩
  rw [h.revoked_iff, ended_concat]
  exact (or_iff_left hends).symm

theorem AccessStands.concat {trace : List OAuthEvent} {event : OAuthEvent}
    {row : AccessToken Hash} (h : AccessStands crates trace row)
    (hends : ¬ Ends row.grantId trace event)
    (hissue : ∀ issue, event.issue? = some issue → issue.grantId ≠ row.grantId) :
    AccessStands crates (trace ++ [event]) row := by
  obtain ⟨issue, hlatest, hrow⟩ := h.latest
  refine ⟨?_, issue, ?_, hrow⟩
  · rw [ended_concat, not_or]
    exact ⟨h.not_ended, hends⟩
  · rw [latestIssue_concat_of_ne hissue]
    exact hlatest

theorem RefreshStands.concat {trace : List OAuthEvent} {event : OAuthEvent}
    {row : RefreshToken Hash} (h : RefreshStands crates trace row)
    (hends : ¬ Ends row.grantId trace event)
    (hrotated : ∀ presented issue, event = .rotated presented issue →
      crates.tokenHash presented ≠ row.tokenHash) :
    RefreshStands crates (trace ++ [event]) row := by
  obtain ⟨issue, hissue, hrow⟩ := h.issued
  obtain ⟨exchange, hexchange, hgrant⟩ := h.exchanged
  refine ⟨?_, ⟨issue, ?_, hrow⟩, ⟨exchange, List.mem_append_left _ hexchange, hgrant⟩, ?_⟩
  · rw [ended_concat, not_or]
    exact ⟨h.not_ended, hends⟩
  · rw [issuesOf_append]
    exact List.mem_append_left _ hissue
  · rw [h.used_iff, rotatedHash_concat]
    refine (or_iff_left ?_).symm
    rintro ⟨presented, other, hevent, hhash⟩
    exact hrotated presented other hevent hhash

/-- An approval or an issued code changes nothing about grants and tokens. -/
theorem Authority.quiet {readings : List Int} {trace : List OAuthEvent}
    {database : OAuthDatabase Hash} (h : Authority crates server readings trace database)
    {event : OAuthEvent} (hevent : (∃ request, event = .approved request) ∨
      ∃ code request, event = .issued code request)
    (hjustified : Justified crates server trace event) :
    Authority crates server readings (trace ++ [event]) database := by
  have hends : ∀ grantId, ¬ Ends grantId trace event := by
    obtain ⟨request, rfl⟩ | ⟨code, request, rfl⟩ := hevent <;> exact fun _ hfalse => hfalse
  have hissue : ∀ grantId issue, event.issue? = some issue → issue.grantId ≠ grantId := by
    obtain ⟨request, rfl⟩ | ⟨code, request, rfl⟩ := hevent <;> exact fun _ _ hsome => by cases hsome
  have hexchange : ∀ exchange, event ≠ .exchanged exchange := by
    obtain ⟨request, rfl⟩ | ⟨code, request, rfl⟩ := hevent <;> exact fun _ hsome => by cases hsome
  have hrotated : ∀ presented issue, event ≠ .rotated presented issue := by
    obtain ⟨request, rfl⟩ | ⟨code, request, rfl⟩ := hevent <;>
      exact fun _ _ hsome => by cases hsome
  have hended : ∀ grantId, Ended (trace ++ [event]) grantId ↔ Ended trace grantId := by
    intro grantId
    rw [ended_concat]
    exact or_iff_left (hends grantId)
  refine ⟨Trace.always_concat.mpr ⟨h.justified, hjustified⟩, ⟨?_, ?_, ?_, ?_⟩, ⟨?_, ?_⟩⟩
  · exact fun row hrow => (h.stands.codes row hrow).concat
      fun exchange hsome => absurd hsome (hexchange exchange)
  · exact fun row hrow => (h.stands.grants row hrow).concat (hends _)
  · exact fun row hrow => ⟨(h.stands.accessTokens row hrow).1.concat (hends _) (hissue _),
      (h.stands.accessTokens row hrow).2⟩
  · exact fun row hrow => ⟨(h.stands.refreshTokens row hrow).1.concat (hends _)
      fun presented issue hsome => absurd hsome (hrotated presented issue),
      (h.stands.refreshTokens row hrow).2⟩
  · intro grantId issue hlatest
    rw [latestIssue_concat_of_ne (hissue grantId)] at hlatest
    rw [hended]
    exact h.keeps.access grantId issue hlatest
  · intro grantId issue hmem
    rw [issuesOf_concat_of_ne (hissue grantId)] at hmem
    rw [hended]
    exact h.keeps.refresh grantId issue hmem

end Memex.Mcp
