import Memex.Web.AuthGuarantees

/-! # Single use of bootstrap tokens

A token is exchanged once as long as it is redeemed in one place: by one server, which has
not read a clock past its expiry since. The secret is on disk and the memory is not, so another
server of the same file exchanges a used token again. -/

namespace Memex.Web

open LineStream

section Runs

variable {Digest : Type} [DecidableEq Digest] {crates : AuthCrates Digest} {clock : Int}
  {instant : Nat} {file : Option String} {labels : List WebStep} {world : WebWorld Digest}

/-- No server runs and nothing was done. -/
def initialWorld (clock : Int) (instant : Nat) (file : Option String) : WebWorld Digest :=
  { clock, instant, file }

/-- What holds of the memory, the sessions and the exchanges in every state of every run. -/
theorem run_keeps (hrun : Transitions.run (webStep crates) (initialWorld clock instant file)
    labels = some world) :
    MemoryFollows crates world ∧ SessionsIssued crates world ∧ ExchangesCount world := by
  refine @Transitions.run_invariant _ _ (webStep crates)
    (fun world => MemoryFollows crates world ∧ SessionsIssued crates world ∧
      ExchangesCount world) ?_ _ _ _ ?_ hrun
  · rintro state label next ⟨hmemory, hsessions, hexchanges⟩ hstep
    exact ⟨hmemory.step hstep, hsessions.step hstep, hexchanges.step hmemory hstep⟩
  · refine ⟨⟨?_, ?_, ?_, ?_, Trace.always_nil⟩, ⟨?_, Trace.always_nil⟩, ⟨?_, ?_, ?_, ?_⟩⟩
    · intro server auth hget
      cases hget
    · intro server checked fresh hmem
      cases hmem
    · intro server checked hcall
      cases hcall
    · intro server auth hget
      cases hget
    · intro server auth hget
      cases hget
    · intro server checked hcall
      cases hcall
    · intro server checked session createdAt hmem
      cases hmem
    · intro token created hmem
      cases hmem
    · intro token
      exact Nat.le_refl 0

/-- In every run of the servers of one secret file no token is redeemed twice exactly if
every token is redeemed in one place, and then a token is exchanged at most once, within its
lifetime; sessions are admitted that were issued at most their lifetime ago. -/
theorem bootstrap_tokens_single_use
    (hrun : Transitions.run (webStep crates) (initialWorld clock instant file) labels =
      some world)
    (hseparate : DigestsSeparate crates (world.trace.flatMap AuthEvent.digested)) :
    (Trace.Always RedeemedInOnePlace world.trace ↔
      (world.trace.flatMap AuthEvent.redeemedTokens).Nodup) ∧
    (Trace.Always RedeemedInOnePlace world.trace → SingleUse world.trace) := by
  obtain ⟨hmemory, hsessions, hexchanges⟩ := run_keeps hrun
  have hiff := nodup_redeemedTokens_iff hmemory.judged hseparate
  refine ⟨hiff.symm, fun hplace => ⟨?_, hexchanges.opened, ?_, ?_⟩⟩
  · rw [List.nodup_iff_count_le_one]
    intro token
    calc (world.trace.flatMap AuthEvent.exchangedTokens).count token
        ≤ (world.trace.flatMap AuthEvent.exchangedTokens).count token +
          (world.calls.flatMap openingTokens).count token := Nat.le_add_right _ _
      _ ≤ (world.trace.flatMap AuthEvent.redeemedTokens).count token :=
          hexchanges.spent token
      _ ≤ 1 := List.nodup_iff_count_le_one.mp (hiff.mpr hplace) token
  · intro server checked session createdAt created hopened hcreated
    obtain ⟨hnotExpired, hnotAhead⟩ :=
      hexchanges.opened server checked session createdAt hopened
    have hexpiry := hexchanges.created checked.token created hcreated
    constructor
    · omega
    · omega
  · intro before event after hsplit server session now heq
    obtain ⟨checked, issued, createdAt, hmem, hdigest, hrecent⟩ :=
      hsessions.admitted before event after hsplit server session now heq
    have hsame : issued = session := by
      apply hseparate issued _ session _ hdigest
      · exact List.mem_flatMap.mpr ⟨_, by rw [hsplit]; exact List.mem_append_left _ hmem,
          List.mem_singleton.mpr rfl⟩
      · exact List.mem_flatMap.mpr ⟨event, by simp [hsplit], by simp [heq, AuthEvent.digested]⟩
    exact ⟨checked, createdAt, hsame ▸ hmem, hrecent⟩

end Runs

/-! ## One token at two servers -/

def sampleSecret : Bytes := (List.range 32).map UInt8.ofNat

def sampleNonce : Bytes := List.replicate 16 7

def sampleSession (byte : UInt8) : Bytes := List.replicate 32 byte

def sampleSignature : Bytes :=
  [175, 221, 131, 49, 241, 248, 5, 73, 224, 223, 242, 77, 125, 62, 62, 25, 242, 134, 232, 210,
    39, 91, 207, 87, 182, 22, 40, 89, 167, 46, 231, 230]

/-- The token of 2023-11-14 22:13:20 UTC. -/
def sampleToken : Bytes := toBeBytes 1700000600 ++ sampleNonce ++ sampleSignature

/-- A token of the second after, with its signature. -/
def laterToken : Bytes :=
  toBeBytes 1700000601 ++ List.replicate 16 8 ++
    [187, 179, 88, 87, 151, 161, 25, 186, 230, 181, 127, 226, 76, 39, 63, 26, 245, 123, 219, 50,
      15, 161, 169, 193, 231, 159, 83, 87, 40, 183, 85, 193]

def encodedSecret : String := "AAECAwQFBgcICQoLDA0ODxAREhMUFRYXGBkaGxwdHh8"

def encodedToken : String :=
  "AAAAAGVT81gHBwcHBwcHBwcHBwcHBwcHr92DMfH4BUng3_JNfT4-GfKG6NInW89XthYoWacu5-Y"

def encodedLaterToken : String :=
  "AAAAAGVT81kICAgICAgICAgICAgICAgIu7NYV5ehGbrmtX_iTCc_GvV72zIPoanB559TVyi3VcE"

def encodedSession : String := "AQEBAQEBAQEBAQEBAQEBAQEBAQEBAQEBAQEBAQEBAQE"

/-- The values of the functions at the secret, the tokens and two sessions. -/
def sampleCrates : AuthCrates Nat where
  encode _ := encodedSecret
  decode text :=
    if text = encodedSecret then some sampleSecret
    else if text = encodedToken then some sampleToken
    else if text = encodedLaterToken then some laterToken
    else if text = encodedSession then some (sampleSession 1)
    else none
  hmacSha256 _ payload :=
    if payload = laterToken.take bootstrapPayloadBytes then
      laterToken.drop bootstrapPayloadBytes
    else sampleSignature
  sha256 bytes :=
    if bytes = sampleToken then
      0xccce704f33549287a865bd8921a8daea0f37256014981950e8822f0c39c111c6
    else if bytes = laterToken then
      0xcc98df5a3e084018d4b88d29dcb982d68f749470ccfe9d4c6ab3fdecb0d0611f
    else if bytes = sampleSession 1 then
      0x72cd6e8422c407fb6d098690f1130b7ded7ec2f7f5e1d30bd9d521f015363793
    else 0x75877bb41d393b5fb8455ce60ecd8dda001d06316496b14dfa7f895656eeca4a

/-- A server is started, a token is created and exchanged, and its session is used. -/
def firstExchange : List WebStep :=
  [.start sampleSecret, .create 0 sampleNonce, .present 0 encodedToken,
    .redeem 0 ⟨sampleToken, 1700000000⟩, .open 0 ⟨sampleToken, 1700000000⟩ (sampleSession 1),
    .ask 0 encodedSession, .admitSession 0 (sampleSession 1) 0]

/-- The server is restarted and the token is presented again. -/
def exchangeAfterRestart : List WebStep :=
  [.stop 0, .start (sampleSession 3), .wait 5 5000000000, .present 1 encodedToken,
    .redeem 1 ⟨sampleToken, 1700000005⟩, .open 1 ⟨sampleToken, 1700000005⟩ (sampleSession 2)]

def firstTrace : List AuthEvent :=
  [.created sampleToken 1700000000, .redeemed 0 ⟨sampleToken, 1700000000⟩ true,
    .opened 0 ⟨sampleToken, 1700000000⟩ (sampleSession 1) 0, .admitted 0 (sampleSession 1) 0]

theorem firstExchange_runs : ∃ world,
    Transitions.run (webStep sampleCrates) (initialWorld 1700000000 0 none) firstExchange =
      some world ∧ world.trace = firstTrace := by
  rw [← Option.map_eq_some_iff]
  decide +kernel

theorem bootstrap_tokens_single_use_first : SingleUse firstTrace := by
  obtain ⟨world, hrun, htrace⟩ := firstExchange_runs
  have hseparate : DigestsSeparate sampleCrates (world.trace.flatMap AuthEvent.digested) := by
    rw [htrace]
    unfold DigestsSeparate
    decide +kernel
  have hsound := bootstrap_tokens_single_use hrun hseparate
  rw [htrace] at hsound
  exact hsound.2 (hsound.1.mpr (by decide +kernel))

/-- After a restart within the lifetime the token is exchanged once more. -/
theorem restart_forgets_used_tokens : ∃ world,
    Transitions.run (webStep sampleCrates) (initialWorld 1700000000 0 none)
      (firstExchange ++ exchangeAfterRestart) = some world ∧
    DigestsSeparate sampleCrates (world.trace.flatMap AuthEvent.digested) ∧
    ¬ SingleUse world.trace := by
  have hruns : ∃ world, Transitions.run (webStep sampleCrates) (initialWorld 1700000000 0 none)
      (firstExchange ++ exchangeAfterRestart) = some world ∧
      world.trace = firstTrace ++ [AuthEvent.redeemed 1 ⟨sampleToken, 1700000005⟩ true,
        .opened 1 ⟨sampleToken, 1700000005⟩ (sampleSession 2) 5000000000] := by
    rw [← Option.map_eq_some_iff]
    decide +kernel
  obtain ⟨world, hrun, htrace⟩ := hruns
  refine ⟨world, hrun, ?_, ?_⟩
  · rw [htrace]
    unfold DigestsSeparate
    decide +kernel
  · rw [htrace]
    intro h
    exact absurd h.once (by decide +kernel)

/-- One server, too, exchanges a token twice, when a thread that has read the clock in the last
second of its lifetime gets the lock after an exchange that has read the next second. -/
example : ((Transitions.run (webStep sampleCrates) (initialWorld 1700000000 0 none)
    [.start sampleSecret, .create 0 sampleNonce, .wait 600 0, .present 0 encodedToken,
      .present 0 encodedToken, .redeem 0 ⟨sampleToken, 1700000600⟩, .wait 1 0,
      .present 0 encodedLaterToken, .redeem 0 ⟨laterToken, 1700000601⟩,
      .redeem 0 ⟨sampleToken, 1700000600⟩]).map fun world =>
        world.trace.flatMap AuthEvent.redeemedTokens) =
    some [sampleToken, laterToken, sampleToken] := by
  decide +kernel

end Memex.Web
