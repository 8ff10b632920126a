import Mathlib.Data.List.MinMax
import Memex.Lib.HeaderMachine
import Memex.Sources.Json

/-! # OAuth for the MCP endpoint

`mcp/oauth.rs`: clients register, an owner approves their requests, a code is exchanged
for a grant with an access and a refresh token, and refresh tokens rotate. Five tables
are kept; a transaction that fails leaves them as they were. -/

namespace Memex.Mcp

open Sources

def scopeRead : String := "memex:read"

def scopeOffline : String := "offline_access"

def codeTtlSeconds : Int := 5 * 60

def accessTtlSeconds : Int := 60 * 60

def refreshTtlSeconds : Int := 30 * 24 * 60 * 60

def unapprovedClientTtlSeconds : Int := 24 * 60 * 60

/-- `PENDING_TTL`, in seconds of the monotonic clock. -/
def pendingTtl : Nat := 10 * 60

def maxClients : Nat := 256

def maxPending : Nat := 256

def maxGrants : Nat := 256

def maxRefreshTokensPerFamily : Nat := 30 * 24 * 60 * 60 / (5 * 60) + 2

/-- What the crates compute: SHA-256 of a token, the challenge of a verifier, the
decoding of the owner key and the parsing of redirect URIs. -/
structure OAuthCrates (Hash : Type) where
  tokenHash : String → Hash
  challenge : String → String
  decodeUrlSafe : String → Option (List UInt8)
  validateRedirectUri : String → Option String

/-- `OAuthServer`: the resource it guards and the secret of its owner. -/
structure OAuthServer where
  resource : String
  secret : List UInt8

structure OAuthClient where
  clientId : String
  clientName : String
  redirectUris : List String
  createdAt : Int
  approvedAt : Option Int
  deriving DecidableEq, Repr

structure OAuthCode (Hash : Type) where
  codeHash : Hash
  clientId : String
  redirectUri : String
  resource : String
  codeChallenge : String
  scope : String
  expiresAt : Int
  deriving DecidableEq, Repr

structure OAuthGrant where
  id : String
  familyId : String
  clientId : String
  resource : String
  scope : String
  createdAt : Int
  revokedAt : Option Int
  deriving DecidableEq, Repr

structure AccessToken (Hash : Type) where
  tokenHash : Hash
  grantId : String
  expiresAt : Int
  deriving DecidableEq, Repr

structure RefreshToken (Hash : Type) where
  tokenHash : Hash
  grantId : String
  familyId : String
  clientId : String
  resource : String
  scope : String
  expiresAt : Int
  usedAt : Option Int
  deriving DecidableEq, Repr

/-- The five tables, each in the order of its rows. -/
structure OAuthDatabase (Hash : Type) where
  clients : List OAuthClient := []
  codes : List (OAuthCode Hash) := []
  grants : List OAuthGrant := []
  accessTokens : List (AccessToken Hash) := []
  refreshTokens : List (RefreshToken Hash) := []
  deriving DecidableEq, Repr

/-! ## Request checks -/

def byteLength (text : String) : Nat :=
  (text.toList.map fun c => c.utf8Size).sum

def isAsciiWhitespace (c : Char) : Bool :=
  c = ' ' || c = '\t' || c = '\n' || c = '\x0C' || c = '\r'

def splitAsciiWhitespace (text : String) : List String :=
  ((text.toList.splitOnP isAsciiWhitespace).filter (· ≠ [])).map String.ofList

/-- Repeated scopes are dropped; reading is always asked for. -/
def normalizeScope (value : Option String) : Option String :=
  let scopes := (splitAsciiWhitespace (value.getD scopeRead)).eraseDups
  if scopes.all (fun scope => scope = scopeRead || scope = scopeOffline) &&
      scopes.contains scopeRead then
    some (" ".intercalate scopes)
  else none

def hasScope (scopes expected : String) : Bool :=
  (splitAsciiWhitespace scopes).contains expected

def scopeIsSubset (requested available : String) : Bool :=
  (splitAsciiWhitespace requested).all fun scope => hasScope available scope

/-- The `like` pattern that looks for the read scope. -/
def scopeLikeRead (scope : String) : Bool :=
  (' ' :: (scope.toList.map Char.toLower ++ [' '])).tails.any fun tail =>
    (" " ++ scopeRead ++ " ").toList.isPrefixOf tail

def validCodeChallenge (value : String) : Bool :=
  value.length = 43 && value.toList.all fun c => c.isAlphanum || c = '-' || c = '_'

def validCodeVerifier (value : String) : Bool :=
  43 ≤ value.length && value.length ≤ 128 &&
    value.toList.all fun c => c.isAlphanum || c = '-' || c = '.' || c = '_' || c = '~'

/-- `authorize_bearer` of the owner. -/
def OAuthServer.authorizeBearer {Hash : Type} (server : OAuthServer) (crates : OAuthCrates Hash)
    (encoded : String) : Bool :=
  match crates.decodeUrlSafe encoded with
  | none => false
  | some candidate => candidate.length = 32 && server.secret = candidate

/-! ## Statements on the tables -/

variable {Hash : Type} [DecidableEq Hash]

namespace OAuthDatabase

/-- Deleting a client deletes its codes. A grant keeps its client from being deleted. -/
def deleteClients (database : OAuthDatabase Hash) (condition : OAuthClient → Bool) :
    Option (OAuthDatabase Hash) :=
  let deleted := (database.clients.filter condition).map OAuthClient.clientId
  if database.grants.any fun grant => deleted.contains grant.clientId then none
  else some { database with
    clients := database.clients.filter fun client => !condition client
    codes := database.codes.filter fun code => !deleted.contains code.clientId }

/-- Deleting a grant deletes its tokens. -/
def deleteGrants (database : OAuthDatabase Hash) (condition : OAuthGrant → Bool) :
    OAuthDatabase Hash :=
  let deleted := (database.grants.filter condition).map OAuthGrant.id
  { database with
    grants := database.grants.filter fun grant => !condition grant
    accessTokens := database.accessTokens.filter fun token => !deleted.contains token.grantId
    refreshTokens := database.refreshTokens.filter fun token => !deleted.contains token.grantId }

def pruneCodes (now : Int) (database : OAuthDatabase Hash) : OAuthDatabase Hash :=
  { database with codes := database.codes.filter fun code => now < code.expiresAt }

def pruneAccessTokens (now : Int) (database : OAuthDatabase Hash) : OAuthDatabase Hash :=
  { database with
    accessTokens := database.accessTokens.filter fun token => now < token.expiresAt }

def pruneRefreshTokens (now : Int) (database : OAuthDatabase Hash) : OAuthDatabase Hash :=
  { database with
    refreshTokens := database.refreshTokens.filter fun token => now < token.expiresAt }

/-- Grants that were revoked long ago, or that have no token left. -/
def pruneGrants (now : Int) (database : OAuthDatabase Hash) : OAuthDatabase Hash :=
  database.deleteGrants fun grant =>
    grant.revokedAt.any (fun revokedAt => revokedAt ≤ now - refreshTtlSeconds) ||
      (!(database.accessTokens.any fun token => token.grantId = grant.id) &&
        !(database.refreshTokens.any fun token => token.grantId = grant.id))

/-- `prune_unapproved_clients_tx`. -/
def pruneUnapprovedClients (now : Int) (database : OAuthDatabase Hash) :
    Option (OAuthDatabase Hash) :=
  database.deleteClients fun client =>
    client.createdAt ≤ now - unapprovedClientTtlSeconds && client.approvedAt.isNone &&
      !(database.codes.any fun code => code.clientId = client.clientId)

/-- `prune_database_tx`. -/
def prune (now : Int) (database : OAuthDatabase Hash) : OAuthDatabase Hash :=
  pruneGrants now (pruneRefreshTokens now (pruneAccessTokens now (pruneCodes now database)))

end OAuthDatabase

/-- One statement of `prune_database`, which commits each of its own. -/
inductive PruneStatement where
  | codes
  | accessTokens
  | refreshTokens
  | grants
  | clients
  deriving DecidableEq, Repr

def PruneStatement.execute (now : Int) (database : OAuthDatabase Hash) :
    PruneStatement → OAuthDatabase Hash
  | .codes => database.pruneCodes now
  | .accessTokens => database.pruneAccessTokens now
  | .refreshTokens => database.pruneRefreshTokens now
  | .grants => database.pruneGrants now
  | .clients => (database.pruneUnapprovedClients now).getD database

/-- `authorize_access`. -/
def authorizeAccess (crates : OAuthCrates Hash) (server : OAuthServer)
    (database : OAuthDatabase Hash) (now : Int) (token : String) : Bool :=
  database.accessTokens.any fun access =>
    access.tokenHash = crates.tokenHash token && now < access.expiresAt &&
      database.grants.any fun grant =>
        grant.id = access.grantId && grant.revokedAt.isNone &&
          grant.resource = server.resource && scopeLikeRead grant.scope

/-! ## Registration and approval -/

structure RegistrationRequest where
  redirectUris : List String
  clientName : Option String := none
  tokenEndpointAuthMethod : Option String := none
  deriving DecidableEq, Repr

/-- The redirect URIs a registration stores, without repetitions. -/
def registeredRedirects (crates : OAuthCrates Hash) (request : RegistrationRequest) :
    Option (List String) :=
  if request.redirectUris = [] || 16 < request.redirectUris.length ||
      request.tokenEndpointAuthMethod.getD "none" ≠ "none" then none
  else (request.redirectUris.mapM fun redirect =>
    if 2048 < byteLength redirect then none
    else crates.validateRedirectUri redirect).map List.eraseDups

/-- Clock readings are compared by the order that `Int` decides. -/
local instance decidedOrder : Preorder Int := Int.instLinearOrder.toPreorder

/-- The oldest client without an approval or a code. -/
def oldestUnapproved (database : OAuthDatabase Hash) : Option OAuthClient :=
  (database.clients.filter fun client => client.approvedAt.isNone &&
    !(database.codes.any fun code => code.clientId = client.clientId)).argmin OAuthClient.createdAt

/-- The oldest such client makes room for a new one. -/
def OAuthDatabase.evictUnapproved (database : OAuthDatabase Hash) : Option (OAuthDatabase Hash) :=
  if maxClients ≤ database.clients.length then
    match oldestUnapproved database with
    | some oldest => database.deleteClients fun client => client.clientId = oldest.clientId
    | none => some database
  else some database

/-- `register`, up to the committed transaction; `none` is an error. -/
def register (crates : OAuthCrates Hash) (database : OAuthDatabase Hash)
    (request : RegistrationRequest) (random : String) (now : Int) :
    Option (OAuthDatabase Hash) :=
  let clientName := request.clientName.getD "OAuth client"
  let clientId := "memex_" ++ random
  (registeredRedirects crates request).bind fun redirectUris =>
    if isBlankText clientName || 200 < clientName.length then none
    else ((database.prune now).pruneUnapprovedClients now).bind fun pruned =>
      pruned.evictUnapproved.bind fun freed =>
        if maxClients ≤ freed.clients.length ||
            freed.clients.any (fun client => client.clientId = clientId) then none
        else some { freed with
          clients := freed.clients ++
            [{ clientId, clientName, redirectUris, createdAt := now, approvedAt := none }] }

structure AuthorizeQuery where
  responseType : String
  clientId : String
  redirectUri : String
  codeChallenge : String
  codeChallengeMethod : String
  resource : String
  scope : Option String := none
  state : Option String := none
  deriving DecidableEq, Repr

/-- `PendingRequest`. Its time is one of the monotonic clock. -/
structure PendingRequest where
  createdAt : Nat
  clientId : String
  clientName : String
  redirectUri : String
  codeChallenge : String
  resource : String
  scope : String
  state : Option String
  deriving DecidableEq, Repr

/-- `authorize_get`, up to the request it builds for a registered client. -/
def authorizeGet (server : OAuthServer) (database : OAuthDatabase Hash) (query : AuthorizeQuery)
    (instant : Nat) : Option PendingRequest := do
  if 128 < byteLength query.clientId || 2048 < byteLength query.redirectUri ||
      2048 < byteLength query.resource ||
      query.scope.any (fun scope => 256 < byteLength scope) ||
      query.state.any (fun state => 2048 < byteLength state) then none
  if query.responseType ≠ "code" || query.codeChallengeMethod ≠ "S256" ||
      !validCodeChallenge query.codeChallenge || query.resource ≠ server.resource then none
  let scope ← normalizeScope query.scope
  let client ← database.clients.find? fun client => client.clientId = query.clientId
  if !client.redirectUris.contains query.redirectUri then none
  some { createdAt := instant, clientId := query.clientId, clientName := client.clientName
         redirectUri := query.redirectUri, codeChallenge := query.codeChallenge
         resource := query.resource, scope, state := query.state }

/-- Requests that wait for a decision of the owner, by their ids. -/
abbrev Pending := List (String × PendingRequest)

def Pending.retain (pending : Pending) (instant : Nat) : Pending :=
  pending.filter fun entry => instant - entry.2.createdAt ≤ pendingTtl

/-- `insert_pending`: the oldest request gives way when there are too many. -/
def insertPending (pending : Pending) (requestId : String) (request : PendingRequest)
    (instant : Nat) : Pending :=
  let retained := pending.retain instant
  let kept :=
    if maxPending ≤ retained.length then
      match retained.argmin fun entry => entry.2.createdAt with
      | some oldest => retained.filter fun entry => entry.1 ≠ oldest.1
      | none => retained
    else retained
  (requestId, request) :: kept.filter fun entry => entry.1 ≠ requestId

structure ApprovalForm where
  requestId : String
  ownerKey : String
  decision : String
  deriving DecidableEq, Repr

/-- `authorize_post`, up to the storage of a code: the requests that still wait, and the
request that is now approved. A wrong owner key leaves the request waiting. -/
def authorizePost (crates : OAuthCrates Hash) (server : OAuthServer) (pending : Pending)
    (form : ApprovalForm) (instant : Nat) : Pending × Option PendingRequest :=
  if byteLength form.requestId ≠ 43 || 16 < byteLength form.decision ||
      256 < byteLength form.ownerKey then (pending, none)
  else if form.decision ≠ "approve" && form.decision ≠ "deny" then (pending, none)
  else
    let retained := pending.retain instant
    if form.decision = "approve" && !server.authorizeBearer crates (trim form.ownerKey) then
      (retained, none)
    else
      let request := (retained.find? fun entry => entry.1 = form.requestId).map Prod.snd
      let kept := retained.filter fun entry => entry.1 ≠ form.requestId
      if form.decision = "deny" then (kept, none) else (kept, request)

/-- The transaction that stores the code of an approved request; `none` is an error. -/
def issueCode (crates : OAuthCrates Hash) (database : OAuthDatabase Hash)
    (request : PendingRequest) (code : String) (now : Int) : Option (OAuthDatabase Hash) :=
  let pruned := database.prune now
  let codeHash := crates.tokenHash code
  if maxPending ≤ pruned.codes.length then none
  else if !(pruned.clients.any fun client => client.clientId = request.clientId) then none
  else if pruned.codes.any fun stored => stored.codeHash = codeHash then none
  else some { pruned with
    codes := pruned.codes ++ [{ codeHash, clientId := request.clientId
                                redirectUri := request.redirectUri, resource := request.resource
                                codeChallenge := request.codeChallenge, scope := request.scope
                                expiresAt := now + codeTtlSeconds }] }

/-! ## Tokens -/

structure TokenForm where
  grantType : String
  clientId : String
  code : Option String := none
  redirectUri : Option String := none
  codeVerifier : Option String := none
  refreshToken : Option String := none
  resource : Option String := none
  scope : Option String := none
  deriving DecidableEq, Repr

/-- `TokenFailure`, an error of the protocol or of the storage. -/
inductive TokenFailure where
  | oauth (error description : String)
  | internal
  deriving DecidableEq, Repr

structure TokenResponse where
  accessToken : String
  tokenType : String := "Bearer"
  expiresIn : Int := accessTtlSeconds
  scope : String
  refreshToken : Option String
  deriving DecidableEq, Repr

/-- The random values a token request draws. -/
structure TokenDraws where
  accessToken : String
  refreshToken : String
  grantId : String
  familyId : String
  deriving DecidableEq, Repr

def invalidCode : TokenFailure :=
  .oauth "invalid_grant" "authorization code is invalid"

/-- The oldest revoked grant makes room for a new one. -/
def OAuthDatabase.evictRevoked (database : OAuthDatabase Hash) : OAuthDatabase Hash :=
  if maxGrants ≤ database.grants.length then
    match (database.grants.filter fun grant => grant.revokedAt.isSome).argmin
        fun grant => grant.revokedAt.getD 0 with
    | some oldest => database.deleteGrants fun grant => grant.id = oldest.id
    | none => database
  else database

/-- `exchange_code`. The tables change with a response only. -/
def exchangeCode (crates : OAuthCrates Hash) (server : OAuthServer)
    (database : OAuthDatabase Hash) (form : TokenForm) (draws : TokenDraws) (now : Int) :
    Except TokenFailure (OAuthDatabase Hash × TokenResponse) :=
  match form.code, form.redirectUri, form.codeVerifier, form.resource with
  | none, _, _, _ => .error (.oauth "invalid_request" "code is required")
  | some _, none, _, _ => .error (.oauth "invalid_request" "redirect_uri is required")
  | some _, some _, none, _ => .error (.oauth "invalid_request" "code_verifier is required")
  | some _, some _, some _, none => .error (.oauth "invalid_target" "resource is required")
  | some code, some redirectUri, some verifier, some resource =>
      let pruned := database.prune now
      let evicted := pruned.evictRevoked
      let codeHash := crates.tokenHash code
      let accessHash := crates.tokenHash draws.accessToken
      let refreshHash := crates.tokenHash draws.refreshToken
      if resource ≠ server.resource || !validCodeVerifier verifier then .error invalidCode
      else match pruned.codes.find? fun stored => stored.codeHash = codeHash with
        | none => .error invalidCode
        | some stored =>
            if stored.clientId ≠ form.clientId || stored.redirectUri ≠ redirectUri ||
                stored.resource ≠ resource || stored.codeChallenge ≠ crates.challenge verifier ||
                stored.expiresAt ≤ now then .error invalidCode
            else if maxGrants ≤ pruned.grants.countP (fun grant => grant.revokedAt.isNone) then
              .error (.oauth "temporarily_unavailable" "active grant limit reached")
            else if maxGrants ≤ evicted.grants.length then
              .error (.oauth "temporarily_unavailable" "grant storage limit reached")
            -- the keys of the new rows, and the client the grant refers to
            else if evicted.grants.any (fun grant => grant.id = draws.grantId ||
                  grant.familyId = draws.familyId) ||
                evicted.accessTokens.any (fun token => token.tokenHash = accessHash) ||
                evicted.refreshTokens.any (fun token => token.tokenHash = refreshHash) ||
                !(evicted.clients.any fun client => client.clientId = stored.clientId) then
              .error .internal
            else .ok (
              { clients := evicted.clients.map fun client =>
                  if client.clientId = stored.clientId then
                    { client with approvedAt := some (client.approvedAt.getD now) }
                  else client
                codes := evicted.codes.filter fun other => other.codeHash ≠ codeHash
                grants := evicted.grants ++
                  [{ id := draws.grantId, familyId := draws.familyId
                     clientId := stored.clientId, resource, scope := stored.scope
                     createdAt := now, revokedAt := none }]
                accessTokens := evicted.accessTokens ++
                  [{ tokenHash := accessHash, grantId := draws.grantId
                     expiresAt := now + accessTtlSeconds }]
                refreshTokens := evicted.refreshTokens ++
                  [{ tokenHash := refreshHash, grantId := draws.grantId
                     familyId := draws.familyId, clientId := stored.clientId, resource
                     scope := stored.scope, expiresAt := now + refreshTtlSeconds
                     usedAt := none }] },
              { accessToken := draws.accessToken, scope := stored.scope
                refreshToken := some draws.refreshToken })

/-- The stored row of a presented refresh token with the revocation of its grant. -/
def storedRefresh (crates : OAuthCrates Hash) (database : OAuthDatabase Hash)
    (presented : String) : Option (RefreshToken Hash × Option Int) :=
  (database.refreshTokens.find? fun row => row.tokenHash = crates.tokenHash presented).bind
    fun row => (database.grants.find? fun grant => grant.id = row.grantId).map
      fun grant => (row, grant.revokedAt)

/-- The presented token belongs to the client and to the resource. -/
def bindsClient (server : OAuthServer) (form : TokenForm) (row : RefreshToken Hash) : Bool :=
  row.clientId = form.clientId && row.resource = server.resource &&
    form.resource = some row.resource

/-- The whole family of a token that was presented twice is revoked. -/
def OAuthDatabase.revokeFamily (database : OAuthDatabase Hash) (familyId : String) (now : Int) :
    OAuthDatabase Hash :=
  let members := (database.grants.filter fun grant => grant.familyId = familyId).map OAuthGrant.id
  { database with
    grants := database.grants.map fun grant =>
      if grant.familyId = familyId then { grant with revokedAt := some now } else grant
    accessTokens := database.accessTokens.filter fun token => !members.contains token.grantId
    refreshTokens := database.refreshTokens.filter fun token => token.familyId ≠ familyId }

/-- The presented token is used now. -/
def markUsed (hash : Hash) (now : Int) (row : RefreshToken Hash) : RefreshToken Hash :=
  if row.tokenHash = hash && row.usedAt.isNone then { row with usedAt := some now } else row

/-- `rotate_refresh`: the tables after it, and its answer. A reused token revokes its
family although the answer is an error; the tables stay as they were with every other
error. -/
def rotateRefresh (crates : OAuthCrates Hash) (server : OAuthServer)
    (database : OAuthDatabase Hash) (form : TokenForm) (draws : TokenDraws) (now : Int) :
    OAuthDatabase Hash × Except TokenFailure TokenResponse :=
  match form.refreshToken with
  | none => (database, .error (.oauth "invalid_request" "refresh_token is required"))
  | some presented =>
      let pruned := database.prune now
      match storedRefresh crates pruned presented with
      | none => (database, .error (.oauth "invalid_grant" "refresh token is invalid"))
      | some (stored, revokedAt) =>
          if !bindsClient server form stored then
            (database, .error (.oauth "invalid_grant" "refresh token is invalid"))
          else if stored.usedAt.isSome then
            (pruned.revokeFamily stored.familyId now,
              .error (.oauth "invalid_grant" "refresh token reuse detected"))
          else if revokedAt.isSome || stored.expiresAt ≤ now then
            (database, .error (.oauth "invalid_grant" "refresh token is invalid or expired"))
          else if maxRefreshTokensPerFamily ≤
              pruned.refreshTokens.countP (fun token => token.familyId = stored.familyId) then
            (database, .error (.oauth "temporarily_unavailable"
              "refresh rotation limit reached; reconnect this client"))
          else
            match (match form.scope with
              | some scope => normalizeScope (some scope)
              | none => some stored.scope) with
            | none => (database, .error (.oauth "invalid_scope" "scope is invalid"))
            | some requestedScope =>
                if !scopeIsSubset requestedScope stored.scope then
                  (database, .error (.oauth "invalid_scope" "scope cannot be expanded"))
                else
                  let hash := crates.tokenHash presented
                  let accessHash := crates.tokenHash draws.accessToken
                  let refreshHash := crates.tokenHash draws.refreshToken
                  let remaining := pruned.accessTokens.filter fun token =>
                    token.grantId ≠ stored.grantId
                  if remaining.any (fun token => token.tokenHash = accessHash) ||
                      pruned.refreshTokens.any (fun token => token.tokenHash = refreshHash) then
                    (database, .error .internal)
                  else
                    ({ pruned with
                        accessTokens := remaining ++
                          [{ tokenHash := accessHash, grantId := stored.grantId
                             expiresAt := now + accessTtlSeconds }]
                        refreshTokens := pruned.refreshTokens.map (markUsed hash now) ++
                          [{ stored with
                             tokenHash := refreshHash, scope := requestedScope
                             expiresAt := now + refreshTtlSeconds, usedAt := none }] },
                      .ok { accessToken := draws.accessToken, scope := requestedScope
                            refreshToken := some draws.refreshToken })

structure RevokeForm where
  token : String
  clientId : String
  deriving DecidableEq, Repr

/-- The grant a token belongs to: access tokens are looked up first. -/
def grantOfToken (crates : OAuthCrates Hash) (database : OAuthDatabase Hash) (token : String) :
    Option OAuthGrant :=
  let hash := crates.tokenHash token
  let access := (database.accessTokens.filter fun row => row.tokenHash = hash).map
    AccessToken.grantId
  let refresh := (database.refreshTokens.filter fun row => row.tokenHash = hash).map
    RefreshToken.grantId
  (access ++ refresh).findSome? fun id => database.grants.find? fun grant => grant.id = id

/-- The statements that revoke one grant. -/
def OAuthDatabase.revokeGrant (database : OAuthDatabase Hash) (id : String) (now : Int) :
    OAuthDatabase Hash :=
  { database with
    grants := database.grants.map fun grant =>
      if grant.id = id then { grant with revokedAt := some now } else grant
    accessTokens := database.accessTokens.filter fun token => token.grantId ≠ id
    refreshTokens := database.refreshTokens.filter fun token => token.grantId ≠ id }

/-- `revoke`: the grant that it revokes, when the token is the client's. -/
def revokedGrant (crates : OAuthCrates Hash) (database : OAuthDatabase Hash)
    (form : RevokeForm) : Option OAuthGrant :=
  (grantOfToken crates database form.token).filter fun grant => grant.clientId = form.clientId

def revoke (crates : OAuthCrates Hash) (database : OAuthDatabase Hash) (form : RevokeForm)
    (now : Int) : OAuthDatabase Hash :=
  match revokedGrant crates database form with
  | some grant => database.revokeGrant grant.id now
  | none => database

/-- `revoke_all`. -/
def revokeAll (database : OAuthDatabase Hash) (now : Int) : OAuthDatabase Hash :=
  { database with
    grants := database.grants.map fun grant =>
      { grant with revokedAt := some (grant.revokedAt.getD now) }
    accessTokens := []
    refreshTokens := []
    codes := [] }

end Memex.Mcp
