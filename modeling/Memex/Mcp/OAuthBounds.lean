import Memex.Mcp.OAuthGuarantees

/-! # Storage bounds of the OAuth tables

The tables stay within their limits, and every grant refers to a client that is
approved, which no deletion of clients takes. -/

namespace Memex.Mcp

variable {Hash : Type} [DecidableEq Hash] {crates : OAuthCrates Hash} {server : OAuthServer}
  {database : OAuthDatabase Hash}

/-- The keys and the references of the tables. -/
structure References (database : OAuthDatabase Hash) : Prop where
  clientIds : (database.clients.map OAuthClient.clientId).Nodup
  grantClients : ∀ grant ∈ database.grants, ∃ client ∈ database.clients,
    client.clientId = grant.clientId
  refreshGrants : ∀ token ∈ database.refreshTokens, ∃ grant ∈ database.grants,
    grant.id = token.grantId ∧ grant.familyId = token.familyId

/-- Every grant refers to an approved client. -/
def GrantsApproved (database : OAuthDatabase Hash) : Prop :=
  ∀ grant ∈ database.grants, ∃ client ∈ database.clients,
    client.clientId = grant.clientId ∧ client.approvedAt.isSome

/-- The limits on the number of rows. -/
structure WithinLimits (database : OAuthDatabase Hash) : Prop where
  clients : database.clients.length ≤ maxClients
  codes : database.codes.length ≤ maxPending
  grants : database.grants.length ≤ maxGrants
  families : ∀ familyId, database.refreshTokens.countP (fun token => token.familyId = familyId) ≤
    maxRefreshTokensPerFamily

/-- What every call keeps. -/
structure Bounded (database : OAuthDatabase Hash) : Prop where
  references : References database
  approved : GrantsApproved database
  limits : WithinLimits database

/-- `initialize_schema` on tables of a version without approvals: the clients that hold a
grant count as approved. -/
def OAuthDatabase.migrateApprovedAt (database : OAuthDatabase Hash) : OAuthDatabase Hash :=
  { database with
    clients := database.clients.map fun client =>
      { client with
        approvedAt :=
          if database.grants.any fun grant => grant.clientId = client.clientId then
            some client.createdAt
          else none } }

/-! ## Deletions -/

omit [DecidableEq Hash] in
theorem bounded_empty : Bounded ({} : OAuthDatabase Hash) := by
  refine ⟨⟨List.nodup_nil, ?_, ?_⟩, ?_, ⟨Nat.zero_le _, Nat.zero_le _, Nat.zero_le _, ?_⟩⟩
  · intro grant hgrant
    cases hgrant
  · intro token htoken
    cases htoken
  · intro grant hgrant
    cases hgrant
  · intro familyId
    exact Nat.zero_le _

omit [DecidableEq Hash] in
theorem References.eq_of_clientId (h : References database) {left right : OAuthClient}
    (hleft : left ∈ database.clients) (hright : right ∈ database.clients)
    (hid : left.clientId = right.clientId) : left = right :=
  List.inj_on_of_nodup_map h.clientIds hleft hright hid

omit [DecidableEq Hash] in
/-- Deleting rows of codes and of tokens keeps everything. -/
theorem Bounded.sublist (h : Bounded database) {codes : List (OAuthCode Hash)}
    {accessTokens : List (AccessToken Hash)} {refreshTokens : List (RefreshToken Hash)}
    (hcodes : codes.Sublist database.codes)
    (hrefresh : refreshTokens.Sublist database.refreshTokens) :
    Bounded { database with codes, accessTokens, refreshTokens } := by
  refine ⟨⟨h.references.clientIds, h.references.grantClients, ?_⟩, h.approved,
    ⟨h.limits.clients, Nat.le_trans hcodes.length_le h.limits.codes, h.limits.grants, ?_⟩⟩
  · intro token htoken
    exact h.references.refreshGrants token (hrefresh.subset htoken)
  · intro familyId
    exact Nat.le_trans hrefresh.countP_le (h.limits.families familyId)

omit [DecidableEq Hash] in
theorem Bounded.deleteGrants (h : Bounded database) (condition : OAuthGrant → Bool) :
    Bounded (database.deleteGrants condition) := by
  have hgrants : ∀ grant, grant ∈ (database.deleteGrants condition).grants →
      grant ∈ database.grants := fun grant hgrant => (List.mem_filter.mp hgrant).1
  refine ⟨⟨h.references.clientIds, ?_, ?_⟩, ?_, ⟨h.limits.clients, h.limits.codes, ?_, ?_⟩⟩
  · intro grant hgrant
    exact h.references.grantClients grant (hgrants grant hgrant)
  · intro token htoken
    obtain ⟨hstored, hkept⟩ := List.mem_filter.mp htoken
    obtain ⟨grant, hgrant, hid, hfamily⟩ := h.references.refreshGrants token hstored
    refine ⟨grant, List.mem_filter.mpr ⟨hgrant, ?_⟩, hid, hfamily⟩
    cases hcondition : condition grant with
    | false => rfl
    | true =>
        have hdeleted : token.grantId ∈ (database.grants.filter condition).map OAuthGrant.id :=
          List.mem_map.mpr ⟨grant, List.mem_filter.mpr ⟨hgrant, hcondition⟩, hid⟩
        simp [hdeleted] at hkept
  · intro grant hgrant
    exact h.approved grant (hgrants grant hgrant)
  · exact Nat.le_trans (List.length_filter_le _ _) h.limits.grants
  · intro familyId
    exact Nat.le_trans (List.filter_sublist.countP_le) (h.limits.families familyId)

omit [DecidableEq Hash] in
theorem Bounded.prune (h : Bounded database) (now : Int) : Bounded (database.prune now) := by
  have hpruned : Bounded (OAuthDatabase.pruneRefreshTokens now
      (OAuthDatabase.pruneAccessTokens now (OAuthDatabase.pruneCodes now database))) :=
    h.sublist List.filter_sublist List.filter_sublist
  exact hpruned.deleteGrants _

omit [DecidableEq Hash] in
/-- Clients without an approval can be deleted: no grant refers to them. -/
theorem Bounded.deleteClients (h : Bounded database) (condition : OAuthClient → Bool)
    (hcondition : ∀ client ∈ database.clients, condition client = true →
      client.approvedAt.isNone) :
    ∃ kept, database.deleteClients condition = some kept ∧ Bounded kept ∧
      kept.clients = database.clients.filter fun client => !condition client := by
  have hreferred : (database.grants.any fun grant =>
      ((database.clients.filter condition).map OAuthClient.clientId).contains grant.clientId) =
        false := by
    rw [List.any_eq_false]
    intro grant hgrant hdeleted
    obtain ⟨client, hclient, hid⟩ := List.mem_map.mp (List.contains_iff_mem.mp hdeleted)
    obtain ⟨hstored, hmatches⟩ := List.mem_filter.mp hclient
    obtain ⟨approved, happroved, happrovedId, hsome⟩ := h.approved grant hgrant
    obtain rfl := h.references.eq_of_clientId hstored happroved (hid.trans happrovedId.symm)
    have hnone := hcondition client hstored hmatches
    rw [Option.isNone_iff_eq_none] at hnone
    rw [hnone] at hsome
    cases hsome
  have hkept : ∀ client ∈ database.clients, client.approvedAt.isSome →
      client ∈ database.clients.filter fun client => !condition client := by
    intro client hclient hsome
    refine List.mem_filter.mpr ⟨hclient, ?_⟩
    cases hmatches : condition client with
    | false => rfl
    | true =>
        have hnone := hcondition client hclient hmatches
        rw [Option.isNone_iff_eq_none] at hnone
        rw [hnone] at hsome
        cases hsome
  rw [OAuthDatabase.deleteClients]
  simp only [hreferred, Bool.false_eq_true, if_false]
  refine ⟨_, rfl, ⟨⟨?_, ?_, h.references.refreshGrants⟩, ?_, ⟨?_, ?_, h.limits.grants,
    h.limits.families⟩⟩, rfl⟩
  · exact (List.filter_sublist.map OAuthClient.clientId).nodup h.references.clientIds
  · intro grant hgrant
    obtain ⟨client, hclient, hid, hsome⟩ := h.approved grant hgrant
    exact ⟨client, hkept client hclient hsome, hid⟩
  · intro grant hgrant
    obtain ⟨client, hclient, hid, hsome⟩ := h.approved grant hgrant
    exact ⟨client, hkept client hclient hsome, hid, hsome⟩
  · exact Nat.le_trans (List.length_filter_le _ _) h.limits.clients
  · exact Nat.le_trans (List.length_filter_le _ _) h.limits.codes

omit [DecidableEq Hash] in
theorem Bounded.pruneUnapprovedClients (h : Bounded database) (now : Int) :
    ∃ kept, database.pruneUnapprovedClients now = some kept ∧ Bounded kept := by
  have hunapproved : ∀ client ∈ database.clients,
      (client.createdAt ≤ now - unapprovedClientTtlSeconds && client.approvedAt.isNone &&
        !(database.codes.any fun code => code.clientId = client.clientId)) = true →
      client.approvedAt.isNone := by
    intro client _ hmatches
    rw [Bool.and_eq_true, Bool.and_eq_true] at hmatches
    exact hmatches.1.2
  obtain ⟨kept, hkept, hbounded, -⟩ := h.deleteClients _ hunapproved
  exact ⟨kept, hkept, hbounded⟩

omit [DecidableEq Hash] in
theorem Bounded.evictUnapproved (h : Bounded database) :
    ∃ kept, database.evictUnapproved = some kept ∧ Bounded kept := by
  rw [OAuthDatabase.evictUnapproved]
  split
  · split
    · next oldest holdest =>
        have hmem : oldest ∈ database.clients.filter fun client => client.approvedAt.isNone &&
            !(database.codes.any fun code => code.clientId = client.clientId) :=
          List.argmin_mem holdest
        obtain ⟨hstored, hmatches⟩ := List.mem_filter.mp hmem
        rw [Bool.and_eq_true] at hmatches
        have hunapproved : ∀ client ∈ database.clients,
            decide (client.clientId = oldest.clientId) = true → client.approvedAt.isNone := by
          intro client hclient hid
          rw [decide_eq_true_eq] at hid
          rw [h.references.eq_of_clientId hclient hstored hid]
          exact hmatches.1
        obtain ⟨kept, hkept, hbounded, -⟩ := h.deleteClients _ hunapproved
        exact ⟨kept, hkept, hbounded⟩
    · exact ⟨database, rfl, h⟩
  · exact ⟨database, rfl, h⟩

omit [DecidableEq Hash] in
theorem Bounded.evictRevoked (h : Bounded database) : Bounded database.evictRevoked := by
  rw [OAuthDatabase.evictRevoked]
  split
  · split
    · exact h.deleteGrants _
    · exact h
  · exact h

/-! ## Calls -/

omit [DecidableEq Hash] in
theorem Bounded.register (h : Bounded database) {request : RegistrationRequest} {random : String}
    {now : Int} {registered : OAuthDatabase Hash}
    (hregister : Mcp.register crates database request random now = some registered) :
    Bounded registered := by
  rw [Mcp.register] at hregister
  obtain ⟨redirectUris, -, hregister⟩ := Option.bind_eq_some_iff.mp hregister
  split at hregister
  · cases hregister
  obtain ⟨pruned, hpruned, hregister⟩ := Option.bind_eq_some_iff.mp hregister
  obtain ⟨freed, hfreed, hregister⟩ := Option.bind_eq_some_iff.mp hregister
  obtain ⟨pruned', hpruned', hbounded⟩ := (h.prune now).pruneUnapprovedClients now
  rw [hpruned'] at hpruned
  obtain rfl := Option.some.inj hpruned
  obtain ⟨freed', hfreed', hkept⟩ := hbounded.evictUnapproved
  rw [hfreed'] at hfreed
  obtain rfl := Option.some.inj hfreed
  split at hregister
  · cases hregister
  next hroom =>
  obtain rfl := Option.some.inj hregister
  rw [Bool.not_eq_true, Bool.or_eq_false_iff, decide_eq_false_iff_not, Nat.not_le,
    List.any_eq_false] at hroom
  refine ⟨⟨?_, ?_, hkept.references.refreshGrants⟩, ?_, ⟨?_, hkept.limits.codes,
    hkept.limits.grants, hkept.limits.families⟩⟩
  · rw [List.map_append, List.nodup_append]
    refine ⟨hkept.references.clientIds, by simp, ?_⟩
    intro clientId hclientId other hother heq
    obtain ⟨client, hclient, rfl⟩ := List.mem_map.mp hclientId
    obtain rfl : other = "memex_" ++ random := by simpa using hother
    exact hroom.2 client hclient (by simpa using heq)
  · intro grant hgrant
    obtain ⟨client, hclient, hid⟩ := hkept.references.grantClients grant hgrant
    exact ⟨client, List.mem_append_left _ hclient, hid⟩
  · intro grant hgrant
    obtain ⟨client, hclient, hid, hsome⟩ := hkept.approved grant hgrant
    exact ⟨client, List.mem_append_left _ hclient, hid, hsome⟩
  · rw [List.length_append, List.length_singleton]
    omega

theorem Bounded.issueCode (h : Bounded database) {request : PendingRequest} {code : String}
    {now : Int} {stored : OAuthDatabase Hash}
    (hissue : Mcp.issueCode crates database request code now = some stored) :
    Bounded stored := by
  have hpruned := h.prune now
  rw [Mcp.issueCode] at hissue
  split at hissue
  · cases hissue
  next hroom =>
  split at hissue
  · cases hissue
  split at hissue
  · cases hissue
  obtain rfl := Option.some.inj hissue
  refine ⟨⟨hpruned.references.clientIds, hpruned.references.grantClients,
    hpruned.references.refreshGrants⟩, hpruned.approved, ⟨hpruned.limits.clients, ?_,
    hpruned.limits.grants, hpruned.limits.families⟩⟩
  rw [List.length_append, List.length_singleton]
  omega

/-- What an exchange found room for. -/
theorem exchangeCode_room {form : TokenForm} {drawn : TokenDraws} {now : Int}
    {other : OAuthDatabase Hash} {response : TokenResponse}
    (h : exchangeCode crates server database form drawn now = .ok (other, response)) :
    ∃ stored : OAuthCode Hash, ∃ accessTokens refreshToken grant,
      (database.prune now).evictRevoked.grants.length < maxGrants ∧
      (∀ kept ∈ (database.prune now).evictRevoked.grants, kept.familyId ≠ drawn.familyId) ∧
      (∃ client ∈ (database.prune now).evictRevoked.clients, client.clientId = stored.clientId) ∧
      grant.clientId = stored.clientId ∧ grant.id = drawn.grantId ∧
      grant.familyId = drawn.familyId ∧ refreshToken.grantId = drawn.grantId ∧
      refreshToken.familyId = drawn.familyId ∧
      other =
        { clients := (database.prune now).evictRevoked.clients.map fun client =>
            if client.clientId = stored.clientId then
              { client with approvedAt := some (client.approvedAt.getD now) }
            else client
          codes := (database.prune now).evictRevoked.codes.filter fun row =>
            row.codeHash ≠ crates.tokenHash (form.code.getD "")
          grants := (database.prune now).evictRevoked.grants ++ [grant]
          accessTokens
          refreshTokens := (database.prune now).evictRevoked.refreshTokens ++ [refreshToken] } := by
  rw [exchangeCode.eq_def] at h
  split at h
  · cases h
  · cases h
  · cases h
  · cases h
  next code redirectUri verifier resource hcode _ _ _ =>
  dsimp only at h
  split at h
  · cases h
  split at h
  · cases h
  next stored _ =>
  split at h
  · cases h
  split at h
  · cases h
  split at h
  · cases h
  next hroom =>
  split at h
  · cases h
  next hkeys =>
  obtain ⟨hother, -⟩ := Prod.mk.inj (Except.ok.inj h)
  rw [Bool.not_eq_true, Bool.or_eq_false_iff, Bool.or_eq_false_iff, Bool.or_eq_false_iff,
    List.any_eq_false, Bool.not_eq_false', List.any_eq_true] at hkeys
  obtain ⟨⟨⟨hgrants, -⟩, -⟩, client, hclient, hid⟩ := hkeys
  refine ⟨stored, _, _, _, Nat.not_le.mp hroom, ?_, ⟨client, hclient, by simpa using hid⟩, ?_, ?_,
    ?_, ?_, ?_, by rw [hcode]; exact hother.symm⟩
  · intro kept hkept hfamily
    exact hgrants kept hkept (by simp [hfamily])
  all_goals rfl

theorem Bounded.exchangeCode (h : Bounded database) {form : TokenForm} {drawn : TokenDraws}
    {now : Int} {other : OAuthDatabase Hash} {response : TokenResponse}
    (hexchange : Mcp.exchangeCode crates server database form drawn now = .ok (other, response)) :
    Bounded other := by
  have hkept := (h.prune now).evictRevoked
  obtain ⟨stored, accessTokens, refreshToken, grant, hroom, hfresh, ⟨owner, howner, hownerId⟩,
    hgrantClient, hgrantId, hgrantFamily, htokenGrant, htokenFamily, rfl⟩ :=
    exchangeCode_room hexchange
  set evicted := (database.prune now).evictRevoked
  let approve : OAuthClient → OAuthClient := fun client =>
    if client.clientId = stored.clientId then
      { client with approvedAt := some (client.approvedAt.getD now) }
    else client
  have happroveId : ∀ client, (approve client).clientId = client.clientId := by
    intro client
    simp only [approve]
    split <;> rfl
  have happroved : ∀ client, client.approvedAt.isSome ∨ client.clientId = stored.clientId →
      (approve client).approvedAt.isSome := by
    intro client hclient
    simp only [approve]
    split
    · rfl
    · next hother => exact hclient.resolve_right hother
  have hgrants : ∀ row ∈ evicted.grants ++ [grant], ∃ client ∈ evicted.clients.map approve,
      client.clientId = row.clientId ∧ client.approvedAt.isSome := by
    intro row hrow
    obtain hrow | hrow := List.mem_append.mp hrow
    · obtain ⟨client, hclient, hid, hsome⟩ := hkept.approved row hrow
      exact ⟨approve client, List.mem_map_of_mem hclient, (happroveId client).trans hid,
        happroved client (Or.inl hsome)⟩
    · obtain rfl := List.mem_singleton.mp hrow
      exact ⟨approve owner, List.mem_map_of_mem howner,
        (happroveId owner).trans (hownerId.trans hgrantClient.symm),
        happroved owner (Or.inr hownerId)⟩
  refine ⟨⟨?_, ?_, ?_⟩, hgrants, ⟨?_, ?_, ?_, ?_⟩⟩
  · have hids : (evicted.clients.map approve).map OAuthClient.clientId =
        evicted.clients.map OAuthClient.clientId := by
      rw [List.map_map]
      apply List.map_congr_left
      intro client _
      exact happroveId client
    exact hids ▸ hkept.references.clientIds
  · intro row hrow
    obtain ⟨client, hclient, hid, -⟩ := hgrants row hrow
    exact ⟨client, hclient, hid⟩
  · intro token htoken
    obtain htoken | htoken := List.mem_append.mp htoken
    · obtain ⟨row, hrow, hid, hfamily⟩ := hkept.references.refreshGrants token htoken
      exact ⟨row, List.mem_append_left _ hrow, hid, hfamily⟩
    · obtain rfl := List.mem_singleton.mp htoken
      refine ⟨grant, List.mem_append_right _ (List.mem_singleton.mpr rfl), ?_, ?_⟩
      · exact hgrantId.trans htokenGrant.symm
      · exact hgrantFamily.trans htokenFamily.symm
  · rw [List.length_map]
    exact hkept.limits.clients
  · exact Nat.le_trans (List.length_filter_le _ _) hkept.limits.codes
  · rw [List.length_append, List.length_singleton]
    exact hroom
  · intro familyId
    rw [List.countP_append, List.countP_singleton]
    by_cases hfamily : refreshToken.familyId = familyId
    · have hnone : evicted.refreshTokens.countP (fun token => token.familyId = familyId) = 0 := by
        rw [List.countP_eq_zero]
        intro token htoken hsame
        obtain ⟨row, hrow, -, hrowFamily⟩ := hkept.references.refreshGrants token htoken
        apply hfresh row hrow
        calc row.familyId = token.familyId := hrowFamily
          _ = familyId := by simpa using hsame
          _ = refreshToken.familyId := hfamily.symm
          _ = drawn.familyId := htokenFamily
      rw [hnone]
      simp [hfamily, maxRefreshTokensPerFamily]
    · simpa [hfamily] using hkept.limits.families familyId

/-- A rotation that answers had room in the family. -/
theorem rotateRefresh_room {form : TokenForm} {drawn : TokenDraws} {now : Int} {presented : String}
    {stored : RefreshToken Hash} {revokedAt : Option Int} {response : TokenResponse}
    (hpresented : form.refreshToken = some presented)
    (hstored : storedRefresh crates (database.prune now) presented = some (stored, revokedAt))
    (h : (rotateRefresh crates server database form drawn now).2 = .ok response) :
    (database.prune now).refreshTokens.countP (fun token => token.familyId = stored.familyId) <
      maxRefreshTokensPerFamily := by
  rw [rotateRefresh.eq_def, hpresented] at h
  dsimp only at h
  rw [hstored] at h
  dsimp only at h
  split at h
  · cases h
  split at h
  · cases h
  split at h
  · cases h
  split at h
  · cases h
  next hroom => exact Nat.not_le.mp hroom

theorem Bounded.rotateRefresh (h : Bounded database) (form : TokenForm) (drawn : TokenDraws)
    (now : Int) : Bounded (Mcp.rotateRefresh crates server database form drawn now).1 := by
  have hpruned := h.prune now
  obtain ⟨-, failure, hrotate⟩ | ⟨stored, hstored, -, failure, hrotate⟩ |
    ⟨-, presented, stored, revokedAt, scope, response, hpresented, hfound, hrotate⟩ :=
    rotateRefresh_cases crates server database form drawn now
  · rw [hrotate]
    exact h
  · rw [hrotate]
    have hgrants : ∀ grant ∈ (database.prune now).grants.map (fun grant =>
        if grant.familyId = stored.familyId then { grant with revokedAt := some now } else grant),
        ∃ old ∈ (database.prune now).grants, old.clientId = grant.clientId := by
      intro grant hgrant
      obtain ⟨old, hold, rfl⟩ := List.mem_map.mp hgrant
      refine ⟨old, hold, ?_⟩
      split <;> rfl
    refine ⟨⟨hpruned.references.clientIds, ?_, ?_⟩, ?_, ⟨hpruned.limits.clients,
      hpruned.limits.codes, ?_, ?_⟩⟩
    · intro grant hgrant
      obtain ⟨old, hold, hclient⟩ := hgrants grant hgrant
      obtain ⟨client, hmem, hid⟩ := hpruned.references.grantClients old hold
      exact ⟨client, hmem, hid.trans hclient⟩
    · intro token htoken
      obtain ⟨grant, hgrant, hid, hfamily⟩ :=
        hpruned.references.refreshGrants token (List.mem_filter.mp htoken).1
      refine ⟨_, List.mem_map_of_mem hgrant, ?_, ?_⟩
      · split
        · exact hid
        · exact hid
      · split
        · exact hfamily
        · exact hfamily
    · intro grant hgrant
      obtain ⟨old, hold, hclient⟩ := hgrants grant hgrant
      obtain ⟨client, hmem, hid, hsome⟩ := hpruned.approved old hold
      exact ⟨client, hmem, hid.trans hclient, hsome⟩
    · exact (List.length_map _).symm ▸ hpruned.limits.grants
    · intro familyId
      exact Nat.le_trans List.filter_sublist.countP_le (hpruned.limits.families familyId)
  · have hroom := rotateRefresh_room hpresented hfound (by rw [hrotate])
    obtain ⟨hmem, -, -⟩ := storedRefresh_eq_some hfound
    rw [hrotate]
    refine ⟨⟨hpruned.references.clientIds, hpruned.references.grantClients, ?_⟩, hpruned.approved,
      ⟨hpruned.limits.clients, hpruned.limits.codes, hpruned.limits.grants, ?_⟩⟩
    · intro token htoken
      obtain htoken | htoken := List.mem_append.mp htoken
      · obtain ⟨old, hold, rfl⟩ := List.mem_map.mp htoken
        rw [markUsed_grantId, markUsed_familyId]
        exact hpruned.references.refreshGrants old hold
      · obtain rfl := List.mem_singleton.mp htoken
        exact hpruned.references.refreshGrants stored hmem
    · intro familyId
      have hmarked : ((database.prune now).refreshTokens.map
          (markUsed (crates.tokenHash presented) now)).countP
            (fun token => token.familyId = familyId) =
          (database.prune now).refreshTokens.countP (fun token => token.familyId = familyId) := by
        rw [List.countP_map]
        apply List.countP_congr
        intro token _
        simp
      rw [List.countP_append, List.countP_singleton, hmarked]
      by_cases hfamily : stored.familyId = familyId
      · subst hfamily
        simp only [decide_true, if_true]
        exact hroom
      · simpa [hfamily] using hpruned.limits.families familyId

theorem Bounded.revoke (h : Bounded database) (form : RevokeForm) (now : Int) :
    Bounded (Mcp.revoke crates database form now) := by
  rw [Mcp.revoke]
  split
  · next revoked _ =>
      refine ⟨⟨h.references.clientIds, ?_, ?_⟩, ?_, ⟨h.limits.clients, h.limits.codes, ?_, ?_⟩⟩
      · intro grant hgrant
        obtain ⟨old, hold, rfl⟩ := List.mem_map.mp hgrant
        obtain ⟨client, hclient, hid⟩ := h.references.grantClients old hold
        refine ⟨client, hclient, ?_⟩
        split
        · exact hid
        · exact hid
      · intro token htoken
        obtain ⟨grant, hgrant, hid, hfamily⟩ :=
          h.references.refreshGrants token (List.mem_filter.mp htoken).1
        refine ⟨_, List.mem_map_of_mem hgrant, ?_, ?_⟩
        · split
          · exact hid
          · exact hid
        · split
          · exact hfamily
          · exact hfamily
      · intro grant hgrant
        obtain ⟨old, hold, rfl⟩ := List.mem_map.mp hgrant
        obtain ⟨client, hclient, hid, hsome⟩ := h.approved old hold
        refine ⟨client, hclient, ?_, hsome⟩
        split
        · exact hid
        · exact hid
      · exact (List.length_map _).symm ▸ h.limits.grants
      · intro familyId
        exact Nat.le_trans List.filter_sublist.countP_le (h.limits.families familyId)
  · exact h

omit [DecidableEq Hash] in
theorem Bounded.revokeAll (h : Bounded database) (now : Int) :
    Bounded (Mcp.revokeAll database now) := by
  refine ⟨⟨h.references.clientIds, ?_, ?_⟩, ?_, ⟨h.limits.clients, Nat.zero_le _, ?_, ?_⟩⟩
  · intro grant hgrant
    obtain ⟨old, hold, rfl⟩ := List.mem_map.mp hgrant
    exact h.references.grantClients old hold
  · intro token htoken
    cases htoken
  · intro grant hgrant
    obtain ⟨old, hold, rfl⟩ := List.mem_map.mp hgrant
    exact h.approved old hold
  · exact (List.length_map _).symm ▸ h.limits.grants
  · intro familyId
    exact Nat.zero_le _

omit [DecidableEq Hash] in
theorem Bounded.pruneStatement (h : Bounded database) (statement : PruneStatement) (now : Int) :
    Bounded (statement.execute now database) := by
  cases statement with
  | codes => exact h.sublist List.filter_sublist (List.Sublist.refl _)
  | accessTokens => exact h.sublist (List.Sublist.refl _) (List.Sublist.refl _)
  | refreshTokens => exact h.sublist (List.Sublist.refl _) List.filter_sublist
  | grants => exact h.deleteGrants _
  | clients =>
      obtain ⟨kept, hkept, hbounded⟩ := h.pruneUnapprovedClients now
      rw [PruneStatement.execute, hkept]
      exact hbounded

/-- Every call keeps the bounds. -/
theorem Bounded.step {system : OAuthSystem Hash} (h : Bounded system.database) (call : OAuthCall) :
    Bounded (oauthStep crates server system call).1.database := by
  cases call with
  | register request random now =>
      dsimp only [oauthStep]
      cases hregister : Mcp.register crates system.database request random now with
      | none => exact h
      | some registered => exact h.register hregister
  | authorize query instant => exact h
  | insertPending request requestId instant =>
      dsimp only [oauthStep]
      split
      · exact h
      · exact h
  | decide form instant => exact h
  | issueCode request code now =>
      dsimp only [oauthStep]
      split
      · cases hissue : Mcp.issueCode crates system.database request code now with
        | none => exact h
        | some stored => exact h.issueCode hissue
      · exact h
  | token form draws now =>
      dsimp only [oauthStep, tokenStep]
      split
      · cases hexchange : Mcp.exchangeCode crates server system.database form draws now with
        | error failure => exact h
        | ok exchanged => exact h.exchangeCode hexchange
      split
      · exact h.rotateRefresh form draws now
      · exact h
  | revoke form now => exact h.revoke form now
  | revokeAll now => exact h.revokeAll now
  | prune statement now => exact h.pruneStatement statement now
  | restart => exact h

theorem Bounded.run {system : OAuthSystem Hash} (h : Bounded system.database)
    (calls : List OAuthCall) :
    Bounded (HeaderMachine.run (oauthStep crates server) system calls).1.database := by
  induction calls generalizing system with
  | nil => exact h
  | cons call rest ih =>
      rw [HeaderMachine.run_cons]
      exact ih (h.step call)

omit [DecidableEq Hash] in
/-- The migration approves the clients of all grants. -/
theorem bounded_migrateApprovedAt (hreferences : References database)
    (hlimits : WithinLimits database) : Bounded database.migrateApprovedAt := by
  have hids : database.migrateApprovedAt.clients.map OAuthClient.clientId =
      database.clients.map OAuthClient.clientId := by
    rw [OAuthDatabase.migrateApprovedAt, List.map_map]
    rfl
  have happroved : GrantsApproved database.migrateApprovedAt := by
    intro grant hgrant
    obtain ⟨client, hclient, hid⟩ := hreferences.grantClients grant hgrant
    refine ⟨_, List.mem_map_of_mem hclient, hid, ?_⟩
    have hany : (database.grants.any fun row => row.clientId = client.clientId) = true := by
      rw [List.any_eq_true]
      exact ⟨grant, hgrant, by simp [hid]⟩
    dsimp only
    rw [if_pos hany]
    rfl
  refine ⟨⟨hids ▸ hreferences.clientIds, ?_, hreferences.refreshGrants⟩, happroved,
    ⟨?_, hlimits.codes, hlimits.grants, hlimits.families⟩⟩
  · intro grant hgrant
    obtain ⟨client, hclient, hid, -⟩ := happroved grant hgrant
    exact ⟨client, hclient, hid⟩
  · exact (List.length_map _).symm ▸ hlimits.clients

/-- No deletion of clients in `register` or in a pruning meets a grant. -/
def DeletionsSucceed (database : OAuthDatabase Hash) : Prop :=
  ∀ now, (∃ kept, database.pruneUnapprovedClients now = some kept) ∧
    ∃ pruned, (database.prune now).pruneUnapprovedClients now = some pruned ∧
      ∃ freed, pruned.evictUnapproved = some freed

omit [DecidableEq Hash] in
theorem Bounded.deletionsSucceed (h : Bounded database) : DeletionsSucceed database := by
  intro now
  obtain ⟨kept, hkept, -⟩ := h.pruneUnapprovedClients now
  obtain ⟨pruned, hpruned, hbounded⟩ := (h.prune now).pruneUnapprovedClients now
  obtain ⟨freed, hfreed, -⟩ := hbounded.evictUnapproved
  exact ⟨⟨kept, hkept⟩, pruned, hpruned, freed, hfreed⟩

/-- In every state a run reaches, from empty tables or from migrated ones, the tables are
within their limits, every grant has its approved client, and no deletion of clients
is refused. -/
theorem oauth_storage_bounds (crates : OAuthCrates Hash) (server : OAuthServer)
    (calls : List OAuthCall) :
    (WithinLimits (oauthRun crates server calls).1.database ∧
      GrantsApproved (oauthRun crates server calls).1.database ∧
      DeletionsSucceed (oauthRun crates server calls).1.database) ∧
    ∀ old : OAuthDatabase Hash, References old ∧ WithinLimits old →
      let system : OAuthSystem Hash := { database := old.migrateApprovedAt }
      let reached := (HeaderMachine.run (oauthStep crates server) system calls).1.database
      WithinLimits reached ∧ GrantsApproved reached ∧ DeletionsSucceed reached := by
  constructor
  · have hbounded : Bounded (oauthRun crates server calls).1.database :=
      bounded_empty.run calls
    exact ⟨hbounded.limits, hbounded.approved, hbounded.deletionsSucceed⟩
  · intro old hold
    have hstart : Bounded old.migrateApprovedAt := bounded_migrateApprovedAt hold.1 hold.2
    have hbounded : Bounded (HeaderMachine.run (oauthStep crates server)
        { database := old.migrateApprovedAt } calls).1.database := Bounded.run hstart calls
    exact ⟨hbounded.limits, hbounded.approved, hbounded.deletionsSucceed⟩

/-- Tables of a version without approvals, with one client and its grant. -/
def unapprovedTables : OAuthDatabase Nat where
  clients :=
    [{ clientId := sampleClient, clientName := "client", redirectUris := [sampleRedirect]
       createdAt := 0, approvedAt := none }]
  grants :=
    [{ id := "grant", familyId := "family", clientId := sampleClient
       resource := sampleServer.resource, scope := "", createdAt := 0, revokedAt := none }]

theorem oauth_storage_bounds_migrated :
    (HeaderMachine.run (oauthStep sampleCrates sampleServer)
      { database := unapprovedTables.migrateApprovedAt }
      [.register { redirectUris := [sampleRedirect] } "registered" 1]).1.database.clients.length ≤
        maxClients := by
  have hreferences : References unapprovedTables := by
    refine ⟨List.nodup_singleton _, ?_, ?_⟩
    · intro grant hgrant
      exact ⟨_, List.mem_singleton_self _, by rw [List.mem_singleton.mp hgrant]⟩
    · intro token htoken
      cases htoken
  have hlimits : WithinLimits unapprovedTables :=
    ⟨by decide, by decide, by decide, fun _ => Nat.zero_le _⟩
  have hbounds := oauth_storage_bounds sampleCrates sampleServer
    [.register { redirectUris := [sampleRedirect] } "registered" 1]
  exact (hbounds.2 unapprovedTables ⟨hreferences, hlimits⟩).1.clients

end Memex.Mcp
