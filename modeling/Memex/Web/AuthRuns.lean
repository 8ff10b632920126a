import Memex.Lib.Trace
import Memex.Lib.Transitions
import Memex.Web.Auth

/-! # Bootstrap tokens over the life of a secret file

Servers start and stop and share one secret file. An exchange reads the clock, waits for the
lock of the used tokens, notes its token there and opens a session; between these steps other
calls and other servers go on. -/

namespace Memex.Web

open LineStream

variable {Digest : Type}

/-- A call that is under way, with what it has read. -/
inductive WebCall where
  | redeem (checked : CheckedToken)
  | open (checked : CheckedToken)
  | admitSession (session : Bytes) (now : Nat)
  deriving DecidableEq, Repr

/-- What the servers did. An exchange that finds its token used is an event, too. -/
inductive AuthEvent where
  | created (token : Bytes) (clock : Int)
  | redeemed (server : Nat) (checked : CheckedToken) (fresh : Bool)
  | opened (server : Nat) (checked : CheckedToken) (session : Bytes) (createdAt : Nat)
  | admitted (server : Nat) (session : Bytes) (now : Nat)
  deriving DecidableEq, Repr

/-- The clocks, the secret file, the running servers with their calls, and what was done. -/
structure WebWorld (Digest : Type) where
  clock : Int := 0
  instant : Nat := 0
  file : Option String := none
  started : Nat := 0
  servers : HashTable Nat (WebAuth Digest) := .empty
  calls : List (Nat × WebCall) := []
  trace : List AuthEvent := []

inductive WebStep where
  | wait (seconds nanoseconds : Nat)
  | start (random : Bytes)
  | stop (server : Nat)
  | create (server : Nat) (nonce : Bytes)
  | present (server : Nat) (encoded : String)
  | redeem (server : Nat) (checked : CheckedToken)
  | open (server : Nat) (checked : CheckedToken) (session : Bytes)
  | giveUp (server : Nat) (call : WebCall)
  | ask (server : Nat) (encoded : String)
  | admitSession (server : Nat) (session : Bytes) (now : Nat)
  deriving DecidableEq, Repr

variable [DecidableEq Digest]

/-- One step of some server, or time that passes. A server that is started again is a new
server of the same file. -/
def webStep (crates : AuthCrates Digest) (world : WebWorld Digest) :
    WebStep → Option (WebWorld Digest)
  | .wait seconds nanoseconds =>
      some { world with
        clock := world.clock + seconds
        instant := world.instant + nanoseconds }
  | .start random =>
      match loadOrCreateSecret crates world.file random with
      | (none, file) => some { world with file := file }
      | (some secret, file) =>
          some { world with
            file := file
            started := world.started + 1
            servers := world.servers.insert world.started { secret := secret } }
  | .stop server =>
      some { world with
        servers := world.servers.retain fun other _ => other ≠ server
        calls := world.calls.filter fun call => call.1 ≠ server }
  | .create server nonce =>
      (world.servers.get server).map fun auth =>
        match createBootstrapToken crates auth nonce world.clock with
        | .ok token => { world with trace := world.trace ++ [AuthEvent.created token world.clock] }
        | .error _ => world
  | .present server encoded =>
      (world.servers.get server).map fun auth =>
        match checkBootstrapToken crates auth encoded world.clock with
        | .ok checked => { world with calls := world.calls ++ [(server, .redeem checked)] }
        | .error _ => world
  | .redeem server checked =>
      if (server, .redeem checked) ∈ world.calls then
        (world.servers.get server).map fun auth =>
          let (redeemed, fresh) := redeemToken crates auth checked
          { world with
            servers := world.servers.insert server redeemed
            calls := world.calls.erase (server, .redeem checked) ++
              if fresh then [(server, .open checked)] else []
            trace := world.trace ++ [AuthEvent.redeemed server checked fresh] }
      else none
  | .open server checked session =>
      if (server, .open checked) ∈ world.calls then
        (world.servers.get server).map fun auth =>
          { world with
            servers := world.servers.insert server (openSession crates auth session world.instant)
            calls := world.calls.erase (server, .open checked)
            trace := world.trace ++ [AuthEvent.opened server checked session world.instant] }
      else none
  | .giveUp server call => some { world with calls := world.calls.erase (server, call) }
  | .ask server encoded =>
      (world.servers.get server).map fun _ =>
        match parseSession crates encoded with
        | some session =>
            { world with calls := world.calls ++ [(server, .admitSession session world.instant)] }
        | none => world
  | .admitSession server session now =>
      if (server, .admitSession session now) ∈ world.calls then
        (world.servers.get server).map fun auth =>
          let (swept, admitted) := admitSession crates auth session now
          { world with
            servers := world.servers.insert server swept
            calls := world.calls.erase (server, .admitSession session now)
            trace := world.trace ++ if admitted then [.admitted server session now] else [] }
      else none

/-- With nothing between its steps an exchange does what the function does in one piece. -/
theorem run_exchange {crates : AuthCrates Digest} {world : WebWorld Digest} {server : Nat}
    {auth : WebAuth Digest} {encoded : String} {checked : CheckedToken}
    (hauth : world.servers.get server = some auth)
    (hchecked : checkBootstrapToken crates auth encoded world.clock = .ok checked)
    (hfresh : (redeemToken crates auth checked).2 = true) (session : Bytes) :
    ∃ next, Transitions.run (webStep crates) world
        [.present server encoded, .redeem server checked, .open server checked session] =
          some next ∧
      next.servers.get server =
        some (exchangeBootstrapToken crates auth encoded world.clock session world.instant).1 := by
  have hpresent : webStep crates world (.present server encoded) =
      some { world with calls := world.calls ++ [(server, .redeem checked)] } := by
    simp only [webStep, hauth, hchecked, Option.map_some]
  have hredeem : ∀ calls, (server, WebCall.redeem checked) ∈ calls →
      webStep crates { world with calls := calls } (.redeem server checked) = some { world with
        servers := world.servers.insert server (redeemToken crates auth checked).1
        calls := calls.erase (server, .redeem checked) ++ [(server, .open checked)]
        trace := world.trace ++ [AuthEvent.redeemed server checked true] } := by
    intro calls hcall
    simp only [webStep, hcall, hauth, hfresh, Option.map_some, if_true]
  rw [Transitions.run_cons, hpresent, Option.bind_some, Transitions.run_cons,
    hredeem _ (by simp), Option.bind_some, Transitions.run_cons]
  simp only [webStep, List.mem_append, List.mem_singleton, or_true, if_true,
    HashTable.get_insert_self, Option.map_some, Option.bind_some, Transitions.run_nil,
    Option.some.injEq, exists_eq_left']
  simp only [exchangeBootstrapToken, hchecked]
  generalize hredeemed : redeemToken crates auth checked = outcome at hfresh
  obtain ⟨redeemed, fresh⟩ := outcome
  obtain rfl := hfresh
  rfl

/-! ## What the events say -/

namespace AuthEvent

/-- The token that an event redeems for the first time in the memory of its server. -/
def redeemedTokens : AuthEvent → List Bytes
  | .redeemed _ checked true => [checked.token]
  | _ => []

/-- The token that an event exchanges for a session. -/
def exchangedTokens : AuthEvent → List Bytes
  | .opened _ checked _ _ => [checked.token]
  | _ => []

/-- The values whose digests an event compares. -/
def digested : AuthEvent → List Bytes
  | .created _ _ => []
  | .redeemed _ checked _ => [checked.token]
  | .opened _ _ session _ => [session]
  | .admitted _ session _ => [session]

end AuthEvent

/-- A clock reading within the lifetime of its token. -/
structure CheckedToken.InTime (checked : CheckedToken) : Prop where
  notExpired : checked.now ≤ expiresAt checked.token
  notAhead : expiresAt checked.token ≤ checked.now + bootstrapTtl

/-- Every token is exchanged at most once and within its lifetime, and a session is admitted
only if an exchange of the server opened it at most a session's lifetime before. -/
structure SingleUse (trace : List AuthEvent) : Prop where
  once : (trace.flatMap AuthEvent.exchangedTokens).Nodup
  inTime : ∀ server checked session createdAt,
    .opened server checked session createdAt ∈ trace → checked.InTime
  sinceCreation : ∀ server checked session createdAt clock,
    .opened server checked session createdAt ∈ trace → .created checked.token clock ∈ trace →
      clock ≤ checked.now ∧ checked.now ≤ clock + bootstrapTtl
  issued : Trace.Always (fun before event => ∀ server session now,
    event = .admitted server session now → ∃ checked createdAt,
      .opened server checked session createdAt ∈ before ∧ now ≤ createdAt + sessionTtl) trace

/-- The token was redeemed at the server, and the server read no clock past its expiry in an
exchange since. -/
def KeptSince (server : Nat) (token : Bytes) (trace : List AuthEvent) : Prop :=
  ∃ before checked after, trace = before ++ AuthEvent.redeemed server checked true :: after ∧
    checked.token = token ∧
    ∀ later fresh, AuthEvent.redeemed server later fresh ∈ after → later.now ≤ expiresAt token

/-- When a token is redeemed that was redeemed before, then it was by the same server, which
since then read no clock past the token's expiry in an exchange. -/
def RedeemedInOnePlace (before : List AuthEvent) (event : AuthEvent) : Prop :=
  ∀ server checked fresh, event = .redeemed server checked fresh →
    ∀ front first earlier back, before = front ++ AuthEvent.redeemed first earlier true :: back →
      earlier.token = checked.token → first = server ∧
        ∀ later other, AuthEvent.redeemed server later other ∈ back →
          later.now ≤ expiresAt checked.token

/-- SHA-256 gives different values different digests. -/
def DigestsSeparate (crates : AuthCrates Digest) (values : List Bytes) : Prop :=
  ∀ left ∈ values, ∀ right ∈ values, crates.sha256 left = crates.sha256 right → left = right

/-! ## The memory of a server -/

/-- The used tokens that a server remembers after the events. -/
def usedTokens (crates : AuthCrates Digest) (server : Nat) (trace : List AuthEvent) :
    HashTable Digest Nat :=
  trace.foldl (fun used event =>
    match event with
    | .redeemed other checked _ =>
        if other = server then
          (forgetExpired used checked.now).insert (crates.sha256 checked.token)
            (expiresAt checked.token)
        else used
    | _ => used) .empty

section Memory

variable {crates : AuthCrates Digest} {server : Nat} {trace : List AuthEvent}

theorem usedTokens_concat_redeemed (checked : CheckedToken) (fresh : Bool) :
    usedTokens crates server (trace ++ [AuthEvent.redeemed server checked fresh]) =
      (forgetExpired (usedTokens crates server trace) checked.now).insert
        (crates.sha256 checked.token) (expiresAt checked.token) := by
  simp only [usedTokens, List.foldl_append, List.foldl_cons, List.foldl_nil, if_true]

/-- The other events leave the memory as it was. -/
theorem usedTokens_concat_of_ne {event : AuthEvent}
    (h : ∀ checked fresh, event ≠ .redeemed server checked fresh) :
    usedTokens crates server (trace ++ [event]) = usedTokens crates server trace := by
  rw [usedTokens, List.foldl_append, List.foldl_cons, List.foldl_nil]
  cases event with
  | redeemed other checked fresh =>
      have hother : other ≠ server := by
        rintro rfl
        exact h checked fresh rfl
      exact if_neg hother
  | created token clock => rfl
  | opened other checked session createdAt => rfl
  | admitted other session now => rfl

theorem usedTokens_of_not_started
    (h : ∀ checked fresh, .redeemed server checked fresh ∉ trace) :
    usedTokens crates server trace = .empty := by
  induction trace using List.reverseRecOn with
  | nil => rfl
  | append_singleton trace event ih =>
      rw [usedTokens_concat_of_ne, ih]
      · intro checked fresh hmem
        exact h checked fresh (List.mem_append_left _ hmem)
      · rintro checked fresh rfl
        exact h checked fresh (by simp)

omit [DecidableEq Digest] in
theorem forgetExpired_get {used : HashTable Digest Nat} {now expiry : Nat} {key : Digest} :
    (forgetExpired used now).get key = some expiry ↔ used.get key = some expiry ∧ now ≤ expiry := by
  rw [forgetExpired, HashTable.get_retain_eq_some, decide_eq_true_eq]

/-- What one more event does to a token that is kept. -/
theorem keptSince_concat {token : Bytes} {event : AuthEvent} :
    KeptSince server token (trace ++ [event]) ↔
      (∃ checked, event = .redeemed server checked true ∧ checked.token = token) ∨
        KeptSince server token trace ∧
          ∀ later fresh, event = .redeemed server later fresh → later.now ≤ expiresAt token := by
  constructor
  · rintro ⟨before, checked, after, hsplit, htoken, hlater⟩
    obtain ⟨rfl, rfl, rfl⟩ | ⟨init, rfl, rfl⟩ := Trace.concat_eq_append_cons_iff.mp hsplit
    · exact Or.inl ⟨checked, rfl, htoken⟩
    · right
      constructor
      · refine ⟨before, checked, init, rfl, htoken, ?_⟩
        intro later fresh hmem
        exact hlater later fresh (List.mem_append_left _ hmem)
      · rintro later fresh rfl
        exact hlater later fresh (by simp)
  · rintro (⟨checked, rfl, htoken⟩ | ⟨⟨before, checked, after, rfl, htoken, hlater⟩, hevent⟩)
    · exact ⟨trace, checked, [], rfl, htoken, by simp⟩
    · refine ⟨before, checked, after ++ [event], by simp, htoken, ?_⟩
      intro later fresh hmem
      rw [List.mem_append, List.mem_singleton] at hmem
      obtain hmem | heq := hmem
      · exact hlater later fresh hmem
      · exact hevent later fresh heq.symm

/-- Whether an exchange finds its token used is what the memory of its server says, and its
reading lies within the lifetime. -/
def JudgedByMemory (crates : AuthCrates Digest) (before : List AuthEvent) (event : AuthEvent) :
    Prop :=
  ∀ server checked fresh, event = .redeemed server checked fresh →
    checked.InTime ∧ fresh = ((forgetExpired (usedTokens crates server before) checked.now).get
      (crates.sha256 checked.token)).isNone

/-- The memory holds exactly the tokens that are kept, with their expiry. -/
theorem usedTokens_get {token : Bytes} {expiry : Nat}
    (hjudged : Trace.Always (JudgedByMemory crates) trace)
    (hseparate : DigestsSeparate crates (token :: trace.flatMap AuthEvent.digested)) :
    (usedTokens crates server trace).get (crates.sha256 token) = some expiry ↔
      expiry = expiresAt token ∧ KeptSince server token trace := by
  induction trace using List.reverseRecOn generalizing expiry with
  | nil =>
      constructor
      · intro h
        cases h
      · rintro ⟨-, before, checked, after, hsplit, -⟩
        simp at hsplit
  | append_singleton trace event ih =>
      rw [Trace.always_concat] at hjudged
      obtain ⟨htrace, hevent⟩ := hjudged
      have hseparateTrace :
          DigestsSeparate crates (token :: trace.flatMap AuthEvent.digested) := by
        intro left hleft right hright
        apply hseparate left _ right _
        · exact List.cons_subset_cons _ (by simp) hleft
        · exact List.cons_subset_cons _ (by simp) hright
      have ih : ∀ {expiry}, (usedTokens crates server trace).get (crates.sha256 token) =
          some expiry ↔ expiry = expiresAt token ∧ KeptSince server token trace :=
        fun {expiry} => ih htrace hseparateTrace
      rw [keptSince_concat]
      by_cases hredeemed : ∃ checked fresh, event = .redeemed server checked fresh
      · obtain ⟨checked, fresh, rfl⟩ := hredeemed
        obtain ⟨-, hfresh⟩ := hevent server checked fresh rfl
        rw [usedTokens_concat_redeemed]
        by_cases htoken : checked.token = token
        · rw [htoken] at hfresh ⊢
          rw [HashTable.get_insert_self, Option.some.injEq, eq_comm]
          constructor
          · intro hexpiry
            refine ⟨hexpiry, ?_⟩
            cases hcase : fresh with
            | true => exact Or.inl ⟨checked, rfl, htoken⟩
            | false =>
                rw [hcase, eq_comm, Option.isNone_eq_false_iff, Option.isSome_iff_exists] at hfresh
                obtain ⟨stored, hstored⟩ := hfresh
                rw [forgetExpired_get, ih] at hstored
                obtain ⟨⟨rfl, hkept⟩, hnow⟩ := hstored
                refine Or.inr ⟨hkept, ?_⟩
                intro later other heq
                cases heq
                exact hnow
          · exact And.left
        · have hne : crates.sha256 token ≠ crates.sha256 checked.token := by
            intro hsame
            exact htoken (hseparate token (by simp) checked.token
              (by simp [AuthEvent.digested]) hsame).symm
          rw [HashTable.get_insert_of_ne _ _ hne, forgetExpired_get, ih]
          constructor
          · rintro ⟨⟨rfl, hkept⟩, hnow⟩
            refine ⟨rfl, Or.inr ⟨hkept, ?_⟩⟩
            intro later other heq
            cases heq
            exact hnow
          · rintro ⟨rfl, ⟨other, heq, hother⟩ | ⟨hkept, hnow⟩⟩
            · cases heq
              exact absurd hother htoken
            · exact ⟨⟨rfl, hkept⟩, hnow checked fresh rfl⟩
      · have hne : ∀ checked fresh, event ≠ .redeemed server checked fresh :=
          fun checked fresh heq => hredeemed ⟨checked, fresh, heq⟩
        rw [usedTokens_concat_of_ne hne, ih]
        apply and_congr_right
        intro _
        constructor
        · exact fun hkept => Or.inr ⟨hkept, fun later fresh heq => absurd heq (hne later fresh)⟩
        · rintro (⟨checked, heq, -⟩ | ⟨hkept, -⟩)
          · exact absurd heq (hne checked true)
          · exact hkept

end Memory

/-- No token is redeemed twice exactly if every token is redeemed in one place. -/
theorem nodup_redeemedTokens_iff {crates : AuthCrates Digest} {trace : List AuthEvent}
    (hjudged : Trace.Always (JudgedByMemory crates) trace)
    (hseparate : DigestsSeparate crates (trace.flatMap AuthEvent.digested)) :
    (trace.flatMap AuthEvent.redeemedTokens).Nodup ↔ Trace.Always RedeemedInOnePlace trace := by
  induction trace using List.reverseRecOn with
  | nil => exact iff_of_true List.nodup_nil Trace.always_nil
  | append_singleton trace event ih =>
      obtain ⟨htrace, hevent⟩ := Trace.always_concat.mp hjudged
      have hseparateTrace : DigestsSeparate crates (trace.flatMap AuthEvent.digested) := by
        intro left hleft right hright
        exact hseparate left (by simp [hleft]) right (by simp [hright])
      rw [List.flatMap_append, List.nodup_append', Trace.always_concat, ← ih htrace hseparateTrace]
      apply and_congr_right
      intro hnodup
      have hget : ∀ {server checked fresh}, event = .redeemed server checked fresh →
          (fresh = false ↔ KeptSince server checked.token trace) := by
        rintro server checked fresh rfl
        obtain ⟨hinTime, hfresh⟩ := hevent server checked fresh rfl
        rw [hfresh, Option.isNone_eq_false_iff, Option.isSome_iff_exists]
        have hseparateToken : DigestsSeparate crates
            (checked.token :: trace.flatMap AuthEvent.digested) := by
          intro left hleft right hright
          apply hseparate left _ right _
          · simpa [AuthEvent.digested, or_comm] using hleft
          · simpa [AuthEvent.digested, or_comm] using hright
        constructor
        · rintro ⟨expiry, hexpiry⟩
          rw [forgetExpired_get, usedTokens_get htrace hseparateToken] at hexpiry
          exact hexpiry.1.2
        · intro hkept
          refine ⟨expiresAt checked.token, ?_⟩
          rw [forgetExpired_get, usedTokens_get htrace hseparateToken]
          exact ⟨⟨rfl, hkept⟩, hinTime.notExpired⟩
      constructor
      · rintro ⟨-, hdisjoint⟩ server checked fresh rfl front first earlier back hsplit hsame
        have hearlier : checked.token ∈ trace.flatMap AuthEvent.redeemedTokens := by
          rw [hsplit, ← hsame]
          simp [AuthEvent.redeemedTokens]
        have hfresh : fresh = false := by
          by_contra htrue
          rw [Bool.not_eq_false] at htrue
          apply hdisjoint hearlier
          simp [htrue, AuthEvent.redeemedTokens]
        obtain ⟨before, noted, after, hnoted, htoken, hlater⟩ := (hget rfl).mp hfresh
        obtain ⟨rfl, heq, rfl⟩ := Trace.split_unique hnodup hsplit hnoted
          (List.mem_singleton.mpr hsame.symm) (List.mem_singleton.mpr htoken.symm)
        cases heq
        exact ⟨rfl, hlater⟩
      · intro hplace
        cases event with
        | redeemed server checked fresh =>
            cases fresh with
            | false => exact ⟨List.nodup_nil, List.disjoint_nil_right _⟩
            | true =>
                refine ⟨List.nodup_singleton _, ?_⟩
                intro token hearlier hnew
                obtain rfl := List.mem_singleton.mp hnew
                obtain ⟨other, hmem, hother⟩ := List.mem_flatMap.mp hearlier
                obtain ⟨front, back, hsplit⟩ := List.append_of_mem hmem
                have hkept : KeptSince server checked.token trace := by
                  cases other with
                  | redeemed first earlier noted =>
                      cases noted with
                      | true =>
                          have hsame := (List.mem_singleton.mp hother).symm
                          obtain ⟨rfl, hlater⟩ :=
                            hplace server checked true rfl front first earlier back hsplit hsame
                          exact ⟨front, earlier, back, hsplit, hsame, hlater⟩
                      | false => cases hother
                  | created token clock => cases hother
                  | opened first earlier session createdAt => cases hother
                  | admitted first session now => cases hother
                cases (hget rfl).mpr hkept
        | created token clock => exact ⟨List.nodup_nil, List.disjoint_nil_right _⟩
        | opened server checked session createdAt =>
            exact ⟨List.nodup_nil, List.disjoint_nil_right _⟩
        | admitted server session now => exact ⟨List.nodup_nil, List.disjoint_nil_right _⟩

end Memex.Web
