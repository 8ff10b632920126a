import Memex.Lib.Trace
import Memex.Mcp.OAuth

/-! # Runs of the OAuth server

The calls of a run, each one a transaction, a statement or a step in memory, in any
order. What the calls did is kept as a trace: approvals, issued codes, exchanges,
rotations and revocations. -/

namespace Memex.Mcp

variable {Hash : Type}

/-- A pair of tokens handed out for a grant. -/
structure TokenIssue where
  grantId : String
  accessToken : String
  refreshToken : String
  issuedAt : Int
  deriving DecidableEq, Repr

/-- A code exchanged for a new grant, with what the client presented. -/
structure CodeExchange where
  code : String
  clientId : String
  redirectUri : String
  resource : String
  codeVerifier : String
  familyId : String
  issue : TokenIssue
  deriving DecidableEq, Repr

/-- What a call did. -/
inductive OAuthEvent where
  | approved (request : PendingRequest)
  | issued (code : String) (request : PendingRequest)
  | exchanged (exchange : CodeExchange)
  | rotated (presented : String) (issue : TokenIssue)
  | replayed (grantId : String)
  | revoked (grantId : String)
  | revokedAll
  deriving DecidableEq, Repr

namespace OAuthEvent

/-- The random values an event made known. -/
def draws : OAuthEvent → List String
  | .issued code _ => [code]
  | .exchanged exchange =>
      [exchange.issue.accessToken, exchange.issue.refreshToken, exchange.issue.grantId,
        exchange.familyId]
  | .rotated _ issue => [issue.accessToken, issue.refreshToken]
  | _ => []

/-- The tokens that an event handed out. -/
def issue? : OAuthEvent → Option TokenIssue
  | .exchanged exchange => some exchange.issue
  | .rotated _ issue => some issue
  | _ => none

end OAuthEvent

/-- The tables, and what the process keeps in memory: requests that were looked up,
requests that wait for the owner and approved requests without a code. -/
structure OAuthSystem (Hash : Type) where
  database : OAuthDatabase Hash := {}
  lookedUp : List PendingRequest := []
  pending : Pending := []
  approved : List PendingRequest := []

/-- A call of a run with its random values and its clock reading. A call that fails in
the storage leaves nothing and is not listed. -/
inductive OAuthCall where
  | register (request : RegistrationRequest) (random : String) (now : Int)
  | authorize (query : AuthorizeQuery) (instant : Nat)
  | insertPending (request : PendingRequest) (requestId : String) (instant : Nat)
  | decide (form : ApprovalForm) (instant : Nat)
  | issueCode (request : PendingRequest) (code : String) (now : Int)
  | token (form : TokenForm) (draws : TokenDraws) (now : Int)
  | revoke (form : RevokeForm) (now : Int)
  | revokeAll (now : Int)
  | prune (statement : PruneStatement) (now : Int)
  | restart
  deriving DecidableEq, Repr

namespace OAuthCall

/-- The random values a call draws. -/
def draws : OAuthCall → List String
  | .register _ random _ => [random]
  | .insertPending _ requestId _ => [requestId]
  | .issueCode _ code _ => [code]
  | .token form draws _ =>
      if form.grantType = "authorization_code" then
        [draws.accessToken, draws.refreshToken, draws.grantId, draws.familyId]
      else if form.grantType = "refresh_token" then [draws.accessToken, draws.refreshToken]
      else []
  | _ => []

/-- The reading of the system clock that a call works with. -/
def reading : OAuthCall → Option Int
  | .register _ _ now => some now
  | .issueCode _ _ now => some now
  | .token _ _ now => some now
  | .revoke _ now => some now
  | .revokeAll now => some now
  | .prune _ now => some now
  | _ => none

end OAuthCall

/-- The clock readings of a run. -/
def clockReadings (calls : List OAuthCall) : List Int :=
  calls.filterMap OAuthCall.reading

variable [DecidableEq Hash]

/-- What `token` does with a request, by its grant type. -/
def tokenStep (crates : OAuthCrates Hash) (server : OAuthServer) (database : OAuthDatabase Hash)
    (form : TokenForm) (draws : TokenDraws) (now : Int) :
    OAuthDatabase Hash × Except TokenFailure TokenResponse :=
  if form.grantType = "authorization_code" then
    match exchangeCode crates server database form draws now with
    | .ok (exchanged, response) => (exchanged, .ok response)
    | .error failure => (database, .error failure)
  else if form.grantType = "refresh_token" then
    rotateRefresh crates server database form draws now
  else (database, .error (.oauth "unsupported_grant_type"
    "grant_type must be authorization_code or refresh_token"))

/-- The grant whose family a rotation revokes, as a used token of it was presented. -/
def replayedGrant (crates : OAuthCrates Hash) (server : OAuthServer)
    (database : OAuthDatabase Hash) (form : TokenForm) (now : Int) : Option String :=
  (form.refreshToken.bind fun presented => storedRefresh crates (database.prune now) presented)
    |>.bind fun (stored, _) =>
      if bindsClient server form stored && stored.usedAt.isSome then some stored.grantId else none

/-- What a token request did. -/
def tokenEvents (crates : OAuthCrates Hash) (server : OAuthServer) (database : OAuthDatabase Hash)
    (form : TokenForm) (draws : TokenDraws) (now : Int) : List OAuthEvent :=
  if form.grantType = "authorization_code" then
    match exchangeCode crates server database form draws now with
    | .ok _ => [.exchanged
        { code := form.code.getD "", clientId := form.clientId
          redirectUri := form.redirectUri.getD "", resource := form.resource.getD ""
          codeVerifier := form.codeVerifier.getD "", familyId := draws.familyId
          issue := { grantId := draws.grantId, accessToken := draws.accessToken
                     refreshToken := draws.refreshToken, issuedAt := now } }]
    | .error _ => []
  else if form.grantType = "refresh_token" then
    match replayedGrant crates server database form now with
    | some grantId => [.replayed grantId]
    | none =>
        match (rotateRefresh crates server database form draws now).2 with
        | .ok _ =>
            (storedRefresh crates (database.prune now) (form.refreshToken.getD "")).toList.map
              fun stored => .rotated (form.refreshToken.getD "")
                { grantId := stored.1.grantId, accessToken := draws.accessToken
                  refreshToken := draws.refreshToken, issuedAt := now }
        | .error _ => []
  else []

/-- One call. -/
def oauthStep (crates : OAuthCrates Hash) (server : OAuthServer) (system : OAuthSystem Hash) :
    OAuthCall → OAuthSystem Hash × List OAuthEvent
  | .register request random now =>
      ({ system with
          database := (register crates system.database request random now).getD system.database },
        [])
  | .authorize query instant =>
      ({ system with
          lookedUp := (authorizeGet server system.database query instant).toList ++
            system.lookedUp }, [])
  | .insertPending request requestId instant =>
      if request ∈ system.lookedUp then
        ({ system with
            lookedUp := system.lookedUp.erase request
            pending := insertPending system.pending requestId request instant }, [])
      else (system, [])
  | .decide form instant =>
      let (kept, request) := authorizePost crates server system.pending form instant
      ({ system with pending := kept, approved := request.toList ++ system.approved },
        request.toList.map .approved)
  | .issueCode request code now =>
      if request ∈ system.approved then
        match issueCode crates system.database request code now with
        | some stored =>
            ({ system with database := stored, approved := system.approved.erase request },
              [.issued code request])
        | none => ({ system with approved := system.approved.erase request }, [])
      else (system, [])
  | .token form draws now =>
      ({ system with database := (tokenStep crates server system.database form draws now).1 },
        tokenEvents crates server system.database form draws now)
  | .revoke form now =>
      ({ system with database := revoke crates system.database form now },
        (revokedGrant crates system.database form).toList.map fun grant => .revoked grant.id)
  | .revokeAll now =>
      ({ system with database := revokeAll system.database now }, [.revokedAll])
  | .prune statement now =>
      ({ system with database := statement.execute now system.database }, [])
  | .restart => ({ database := system.database }, [])

/-- A run of calls on empty tables, with the trace of what they did. -/
def oauthRun (crates : OAuthCrates Hash) (server : OAuthServer) (calls : List OAuthCall) :
    OAuthSystem Hash × List OAuthEvent :=
  HeaderMachine.run (oauthStep crates server) {} calls

theorem oauthRun_concat (crates : OAuthCrates Hash) (server : OAuthServer)
    (calls : List OAuthCall) (call : OAuthCall) :
    oauthRun crates server (calls ++ [call]) =
      let before := oauthRun crates server calls
      let after := oauthStep crates server before.1 call
      (after.1, before.2 ++ after.2) := by
  simp [oauthRun, HeaderMachine.run_append, HeaderMachine.run_cons]

/-- `random_token` never returned a value twice, up to its hash. -/
def FreshDraws (crates : OAuthCrates Hash) (calls : List OAuthCall) : Prop :=
  ((calls.flatMap OAuthCall.draws).map crates.tokenHash).Nodup

/-! ## What a trace says -/

/-- The tokens handed out for a grant, in order. -/
def issuesOf (trace : List OAuthEvent) (grantId : String) : List TokenIssue :=
  (trace.filterMap OAuthEvent.issue?).filter fun issue => issue.grantId = grantId

/-- The tokens of the latest exchange or rotation of a grant. -/
def latestIssue (trace : List OAuthEvent) (grantId : String) : Option TokenIssue :=
  (issuesOf trace grantId).getLast?

/-- The event ends the grant, after the given ones. -/
def Ends (grantId : String) (before : List OAuthEvent) : OAuthEvent → Prop
  | .replayed id => id = grantId
  | .revoked id => id = grantId
  | .revokedAll => issuesOf before grantId ≠ []
  | _ => False

/-- The grant was ended. -/
def Ended (trace : List OAuthEvent) (grantId : String) : Prop :=
  Trace.Occurs (Ends grantId) trace

/-- A refresh token with this hash was rotated. -/
def RotatedHash (crates : OAuthCrates Hash) (trace : List OAuthEvent) (hash : Hash) : Prop :=
  ∃ presented issue, .rotated presented issue ∈ trace ∧ crates.tokenHash presented = hash

/-- The exchange presents a code that was issued for a request of the owner's approval,
with what the request was made with. -/
def JustifiesExchange (crates : OAuthCrates Hash) (server : OAuthServer)
    (before : List OAuthEvent) (exchange : CodeExchange) : Prop :=
  ∃ code request, .issued code request ∈ before ∧ .approved request ∈ before ∧
    crates.tokenHash code = crates.tokenHash exchange.code ∧
    request.clientId = exchange.clientId ∧ request.redirectUri = exchange.redirectUri ∧
    request.resource = exchange.resource ∧ exchange.resource = server.resource ∧
    request.codeChallenge = crates.challenge exchange.codeVerifier

/-- What has to stand before an event. -/
def Justified (crates : OAuthCrates Hash) (server : OAuthServer) (before : List OAuthEvent) :
    OAuthEvent → Prop
  | .approved _ => True
  | .issued _ request => .approved request ∈ before
  | .exchanged exchange => JustifiesExchange crates server before exchange ∧
      ∀ other, .exchanged other ∈ before →
        crates.tokenHash other.code ≠ crates.tokenHash exchange.code
  | .rotated presented issue => ∃ earlier ∈ issuesOf before issue.grantId,
      crates.tokenHash earlier.refreshToken = crates.tokenHash presented
  | .replayed grantId => issuesOf before grantId ≠ []
  | .revoked grantId => issuesOf before grantId ≠ []
  | .revokedAll => True

end Memex.Mcp
