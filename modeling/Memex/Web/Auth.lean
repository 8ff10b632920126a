import Memex.Lib.HashTable
import Memex.Lib.LineStream
import Memex.Sources.Json

/-! # Credentials of the web UI

`web_auth.rs`: a secret in a file, signed bootstrap tokens that a browser exchanges for a
session, and the sessions of a server. The secret outlives a server; its memory of used
tokens and its sessions do not. -/

namespace Memex.Web

open Sources LineStream

def accessTokenBytes : Nat := 32

def bootstrapNonceBytes : Nat := 16

def bootstrapPayloadBytes : Nat := 8 + bootstrapNonceBytes

def bootstrapTokenBytes : Nat := bootstrapPayloadBytes + 32

/-- `BOOTSTRAP_TTL`, in seconds of the system clock. -/
def bootstrapTtl : Nat := 10 * 60

/-- `SESSION_TTL`, in nanoseconds of the monotonic clock. -/
def sessionTtl : Nat := 12 * 60 * 60 * 1000000000

/-- What the crates compute: unpadded URL-safe base64, HMAC-SHA-256 and SHA-256. -/
structure AuthCrates (Digest : Type) where
  encode : Bytes → String
  decode : String → Option Bytes
  hmacSha256 : Bytes → Bytes → Bytes
  sha256 : Bytes → Digest

/-- A number in so many bytes, the highest first. -/
def beBytes : Nat → Nat → Bytes
  | 0, _ => []
  | count + 1, value => beBytes count (value / 256) ++ [UInt8.ofNat value]

/-- `u64::to_be_bytes`. -/
def toBeBytes (value : Nat) : Bytes :=
  beBytes 8 value

/-- `u64::from_be_bytes`. -/
def fromBeBytes (bytes : Bytes) : Nat :=
  bytes.foldl (fun value byte => value * 256 + byte.toNat) 0

/-- `u64::saturating_add`. -/
def saturatingAdd (left right : Nat) : Nat :=
  if left + right < 2 ^ 64 then left + right else 2 ^ 64 - 1

/-- `SystemTime::duration_since(UNIX_EPOCH)`, in whole seconds. -/
def sinceEpoch (clock : Int) : Except String Nat :=
  if clock < 0 then .error "system clock is before the Unix epoch" else .ok clock.toNat

/-- `WebAuth`: the secret, and what the server keeps in memory under the digests of the
tokens: when a session was opened and when a used bootstrap token expires. -/
structure WebAuth (Digest : Type) where
  secret : Bytes
  sessions : HashTable Digest Nat := .empty
  usedBootstrapTokens : HashTable Digest Nat := .empty

variable {Digest : Type}

/-! ## The secret -/

/-- `read_secret`. -/
def readSecret (crates : AuthCrates Digest) (content : String) : Option Bytes :=
  (crates.decode (trim content)).filter fun decoded => decoded.length = accessTokenBytes

/-- `load_or_create_secret`: the first server publishes its random value, the others read
what was published. The second component is the file that stands afterwards. -/
def loadOrCreateSecret (crates : AuthCrates Digest) (file : Option String) (random : Bytes) :
    Option Bytes × Option String :=
  match file with
  | none => (some random, some (crates.encode random ++ "\n"))
  | some content => (readSecret crates content, some content)

/-! ## Bootstrap tokens -/

/-- When a token expires. -/
def expiresAt (token : Bytes) : Nat :=
  fromBeBytes (token.take 8)

/-- The token of an expiry and a nonce, signed. -/
def signedToken (crates : AuthCrates Digest) (secret : Bytes) (expiry : Nat) (nonce : Bytes) :
    Bytes :=
  let payload := toBeBytes expiry ++ nonce
  payload ++ crates.hmacSha256 secret payload

/-- `create_bootstrap_token`, before the encoding. Times end with the seconds of an `i64`. -/
def createBootstrapToken (crates : AuthCrates Digest) (auth : WebAuth Digest) (nonce : Bytes)
    (clock : Int) : Except String Bytes :=
  if clock + bootstrapTtl < 2 ^ 63 then
    match sinceEpoch (clock + bootstrapTtl) with
    | .ok expiry => .ok (signedToken crates auth.secret expiry nonce)
    | .error message => .error message
  else .error "bootstrap expiry overflow"

/-- A token that was found signed and in time, with the clock reading that said so. -/
structure CheckedToken where
  token : Bytes
  now : Nat
  deriving DecidableEq, Repr

/-- `exchange_bootstrap_token`, before the lock of the used tokens is taken. -/
def checkBootstrapToken (crates : AuthCrates Digest) (auth : WebAuth Digest) (encoded : String)
    (clock : Int) : Except String CheckedToken :=
  match crates.decode encoded with
  | none => .error "invalid bootstrap token"
  | some token =>
      if token.length ≠ bootstrapTokenBytes then .error "invalid bootstrap token"
      else if crates.hmacSha256 auth.secret (token.take bootstrapPayloadBytes) ≠
          token.drop bootstrapPayloadBytes then .error "invalid bootstrap token"
      else
        match sinceEpoch clock with
        | .error message => .error message
        | .ok now =>
            if expiresAt token < now ∨ saturatingAdd now bootstrapTtl < expiresAt token then
              .error "expired bootstrap token"
            else .ok { token, now }

/-- The used tokens that are not forgotten at a clock reading. -/
def forgetExpired (used : HashTable Digest Nat) (now : Nat) : HashTable Digest Nat :=
  used.retain fun _ expiry => now ≤ expiry

section Exchange

variable [DecidableEq Digest]

/-- `exchange_bootstrap_token`, while it holds the lock of the used tokens: expired ones are
forgotten, this one is noted. Says whether it was not noted before. -/
def redeemToken (crates : AuthCrates Digest) (auth : WebAuth Digest) (checked : CheckedToken) :
    WebAuth Digest × Bool :=
  let used := forgetExpired auth.usedBootstrapTokens checked.now
  let fingerprint := crates.sha256 checked.token
  ({ auth with usedBootstrapTokens := used.insert fingerprint (expiresAt checked.token) },
    (used.get fingerprint).isNone)

/-- `exchange_bootstrap_token`, while it holds the lock of the sessions. -/
def openSession (crates : AuthCrates Digest) (auth : WebAuth Digest) (session : Bytes)
    (instant : Nat) : WebAuth Digest :=
  { auth with sessions := auth.sessions.insert (crates.sha256 session) instant }

/-- `exchange_bootstrap_token` with nothing between its steps. -/
def exchangeBootstrapToken (crates : AuthCrates Digest) (auth : WebAuth Digest)
    (encoded : String) (clock : Int) (session : Bytes) (instant : Nat) :
    WebAuth Digest × Except String String :=
  match checkBootstrapToken crates auth encoded clock with
  | .error message => (auth, .error message)
  | .ok checked =>
      match redeemToken crates auth checked with
      | (redeemed, false) => (redeemed, .error "bootstrap token has already been used")
      | (redeemed, true) =>
          (openSession crates redeemed session instant, .ok (crates.encode session))

end Exchange

/-! ## Sessions -/

/-- `authorize_session`, before the lock is taken. -/
def parseSession (crates : AuthCrates Digest) (encoded : String) : Option Bytes :=
  (crates.decode encoded).filter fun decoded => decoded.length = accessTokenBytes

/-- `authorize_session`, while it holds the lock: old sessions are forgotten. `now` was read
before. -/
def admitSession (crates : AuthCrates Digest) (auth : WebAuth Digest) (session : Bytes)
    (now : Nat) : WebAuth Digest × Bool :=
  let sessions := auth.sessions.retain fun _ createdAt => now - createdAt ≤ sessionTtl
  ({ auth with sessions := sessions }, (sessions.get (crates.sha256 session)).isSome)

/-! ## What the operations say -/

theorem length_beBytes (count value : Nat) : (beBytes count value).length = count := by
  induction count generalizing value with
  | zero => rfl
  | succ count ih => rw [beBytes, List.length_append, ih, List.length_singleton]

theorem fromBeBytes_beBytes (count value : Nat) :
    fromBeBytes (beBytes count value) = value % 256 ^ count := by
  induction count generalizing value with
  | zero => rw [pow_zero, Nat.mod_one]; rfl
  | succ count ih =>
      have hlast : (UInt8.ofNat value).toNat = value % 256 := UInt8.toNat_ofNat
      calc fromBeBytes (beBytes (count + 1) value)
          = fromBeBytes (beBytes count (value / 256)) * 256 + (UInt8.ofNat value).toNat := by
            rw [beBytes, fromBeBytes, List.foldl_append]
            rfl
        _ = value % 256 + 256 * (value / 256 % 256 ^ count) := by
            rw [ih, hlast, Nat.mul_comm, Nat.add_comm]
        _ = value % 256 ^ (count + 1) := by
            rw [pow_succ', Nat.mod_mul]

theorem expiresAt_signedToken {crates : AuthCrates Digest} {secret nonce : Bytes} {expiry : Nat}
    (h : expiry < 2 ^ 64) : expiresAt (signedToken crates secret expiry nonce) = expiry := by
  have hlength : (toBeBytes expiry).length = 8 := length_beBytes 8 expiry
  have htake : (signedToken crates secret expiry nonce).take 8 = toBeBytes expiry := by
    simp only [signedToken, List.append_assoc]
    rw [← hlength, List.take_left]
  rw [expiresAt, htake, toBeBytes, fromBeBytes_beBytes]
  exact Nat.mod_eq_of_lt h

/-- A created token expires when its lifetime has passed. -/
theorem expiresAt_createBootstrapToken {crates : AuthCrates Digest} {auth : WebAuth Digest}
    {nonce token : Bytes} {clock : Int}
    (h : createBootstrapToken crates auth nonce clock = .ok token) :
    (expiresAt token : Int) = clock + bootstrapTtl := by
  rw [createBootstrapToken] at h
  split at h
  · next hclock =>
    rw [sinceEpoch] at h
    split at h
    · next expiry hexpiry =>
      split at hexpiry
      · cases hexpiry
      · obtain rfl := Except.ok.inj hexpiry
        obtain rfl := Except.ok.inj h
        rw [expiresAt_signedToken (by omega)]
        omega
    · cases h
  · cases h

/-- A token that passes the check has expiry and reading within a lifetime of each other. -/
theorem checkBootstrapToken_eq_ok {crates : AuthCrates Digest} {auth : WebAuth Digest}
    {encoded : String} {clock : Int} {checked : CheckedToken}
    (h : checkBootstrapToken crates auth encoded clock = .ok checked) :
    crates.decode encoded = some checked.token ∧ (checked.now : Int) = clock ∧
      checked.now ≤ expiresAt checked.token ∧
      expiresAt checked.token ≤ checked.now + bootstrapTtl := by
  rw [checkBootstrapToken] at h
  split at h
  · cases h
  · next token hdecode =>
    split at h
    · cases h
    · split at h
      · cases h
      · split at h
        · cases h
        · next now hnow =>
          split at h
          · cases h
          · next hinTime =>
            obtain rfl := Except.ok.inj h
            rw [sinceEpoch] at hnow
            split at hnow
            · cases hnow
            · next hepoch =>
              obtain rfl := Except.ok.inj hnow
              simp only [saturatingAdd] at hinTime
              refine ⟨hdecode, ?_, ?_, ?_⟩
              · dsimp only
                omega
              · dsimp only
                omega
              · dsimp only
                split at hinTime
                · omega
                · omega

/-- A session that is admitted was opened under its digest and is not too old. -/
theorem admitSession_eq_true {crates : AuthCrates Digest} {auth : WebAuth Digest}
    {session : Bytes} {now : Nat} (h : (admitSession crates auth session now).2 = true) :
    ∃ createdAt, auth.sessions.get (crates.sha256 session) = some createdAt ∧
      now ≤ createdAt + sessionTtl := by
  rw [admitSession, Option.isSome_iff_exists] at h
  obtain ⟨createdAt, hget⟩ := h
  rw [HashTable.get_retain_eq_some, decide_eq_true_eq] at hget
  refine ⟨createdAt, hget.1, ?_⟩
  have := hget.2
  omega

end Memex.Web
