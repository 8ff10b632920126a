import Memex.Web.AuthRuns

/-! # What holds of the web credentials in every run

The memory of a server follows the events, a session comes from an exchange of its server,
and an exchange opens one session for what it redeemed. -/

namespace Memex.Web

open LineStream

variable {Digest : Type} [DecidableEq Digest] {crates : AuthCrates Digest}
  {world next : WebWorld Digest}

/-! ## The memory of the servers -/

/-- The memory of a running server is what the events say, and so is what exchanges found. -/
structure MemoryFollows (crates : AuthCrates Digest) (world : WebWorld Digest) : Prop where
  running : ∀ server auth, world.servers.get server = some auth → server < world.started
  seen : ∀ server checked fresh, .redeemed server checked fresh ∈ world.trace →
    server < world.started
  waiting : ∀ server checked, (server, .redeem checked) ∈ world.calls → checked.InTime
  memory : ∀ server auth, world.servers.get server = some auth →
    auth.usedBootstrapTokens = usedTokens crates server world.trace
  judged : Trace.Always (JudgedByMemory crates) world.trace

/-- An event at most, and none of a redeemed token. -/
def Quiet (trace trace' : List AuthEvent) : Prop :=
  trace' = trace ∨ ∃ event, trace' = trace ++ [event] ∧
    ∀ server checked fresh, event ≠ .redeemed server checked fresh

/-- What a step has to respect that redeems nothing. -/
theorem MemoryFollows.of_quiet (h : MemoryFollows crates world)
    (hstarted : next.started = world.started)
    (hservers : ∀ server auth, next.servers.get server = some auth → ∃ old,
      world.servers.get server = some old ∧ auth.usedBootstrapTokens = old.usedBootstrapTokens)
    (hcalls : ∀ server checked, (server, .redeem checked) ∈ next.calls →
      (server, .redeem checked) ∈ world.calls ∨ checked.InTime)
    (htrace : Quiet world.trace next.trace) : MemoryFollows crates next := by
  have hused : ∀ server, usedTokens crates server next.trace =
      usedTokens crates server world.trace := by
    intro server
    obtain hsame | ⟨event, hevent, hquiet⟩ := htrace
    · rw [hsame]
    · rw [hevent]
      exact usedTokens_concat_of_ne (hquiet server)
  constructor
  · intro server auth hget
    obtain ⟨old, hold, -⟩ := hservers server auth hget
    rw [hstarted]
    exact h.running server old hold
  · intro server checked fresh hmem
    rw [hstarted]
    apply h.seen server checked fresh
    obtain hsame | ⟨event, hevent, hquiet⟩ := htrace
    · rwa [hsame] at hmem
    · rw [hevent, List.mem_append, List.mem_singleton] at hmem
      obtain hmem | heq := hmem
      · exact hmem
      · exact absurd heq.symm (hquiet server checked fresh)
  · intro server checked hcall
    obtain hold | hinTime := hcalls server checked hcall
    · exact h.waiting server checked hold
    · exact hinTime
  · intro server auth hget
    obtain ⟨old, hold, hsame⟩ := hservers server auth hget
    rw [hused, hsame]
    exact h.memory server old hold
  · obtain hsame | ⟨event, hevent, hquiet⟩ := htrace
    · rw [hsame]
      exact h.judged
    · rw [hevent, Trace.always_concat]
      refine ⟨h.judged, ?_⟩
      intro server checked fresh heq
      exact absurd heq (hquiet server checked fresh)

/-- A server that is started has an empty memory, and no event is of it. -/
theorem MemoryFollows.start (h : MemoryFollows crates world) (secret : Bytes)
    (file : Option String) :
    MemoryFollows crates { world with
      file := file
      started := world.started + 1
      servers := world.servers.insert world.started { secret := secret } } := by
  constructor
  · intro server auth hget
    rw [HashTable.get_insert] at hget
    split at hget
    · next heq =>
      dsimp only
      omega
    · exact Nat.lt_succ_of_lt (h.running server auth hget)
  · intro server checked fresh hmem
    exact Nat.lt_succ_of_lt (h.seen server checked fresh hmem)
  · exact h.waiting
  · intro server auth hget
    rw [HashTable.get_insert] at hget
    split at hget
    · next heq =>
      obtain rfl := Option.some.inj hget
      symm
      apply usedTokens_of_not_started
      intro checked fresh hmem
      have := h.seen server checked fresh hmem
      omega
    · exact h.memory server auth hget
  · exact h.judged

/-- An exchange that has the lock notes its token as the events say. -/
theorem MemoryFollows.redeem (h : MemoryFollows crates world) {server : Nat}
    {checked : CheckedToken} {auth : WebAuth Digest} {calls : List (Nat × WebCall)}
    (hauth : world.servers.get server = some auth)
    (hcall : (server, .redeem checked) ∈ world.calls)
    (hcalls : ∀ other waiting, (other, .redeem waiting) ∈ calls →
      (other, .redeem waiting) ∈ world.calls) :
    MemoryFollows crates { world with
      servers := world.servers.insert server (redeemToken crates auth checked).1
      calls := calls
      trace := world.trace ++
        [.redeemed server checked (redeemToken crates auth checked).2] } := by
  constructor
  · intro other found hget
    rw [HashTable.get_insert] at hget
    split at hget
    · next heq =>
      rw [heq]
      exact h.running server auth hauth
    · exact h.running other found hget
  · intro other noted fresh hmem
    rw [List.mem_append, List.mem_singleton] at hmem
    obtain hmem | heq := hmem
    · exact h.seen other noted fresh hmem
    · cases heq
      exact h.running server auth hauth
  · intro other waiting hmem
    exact h.waiting other waiting (hcalls other waiting hmem)
  · intro other found hget
    rw [HashTable.get_insert] at hget
    split at hget
    · next heq =>
      obtain rfl := Option.some.inj hget
      rw [heq, usedTokens_concat_redeemed, ← h.memory server auth hauth]
      rfl
    · next hne =>
      rw [usedTokens_concat_of_ne]
      · exact h.memory other found hget
      · intro noted fresh heq
        cases heq
        exact hne rfl
  · rw [Trace.always_concat]
    refine ⟨h.judged, ?_⟩
    intro other noted fresh heq
    cases heq
    refine ⟨h.waiting server checked hcall, ?_⟩
    rw [← h.memory server auth hauth]
    rfl

omit [DecidableEq Digest] in
/-- A server that is replaced keeps its used tokens. -/
theorem exists_of_get_insert {servers : HashTable Nat (WebAuth Digest)} {server : Nat}
    {auth kept : WebAuth Digest} (hauth : servers.get server = some auth)
    (hkept : kept.usedBootstrapTokens = auth.usedBootstrapTokens) (other : Nat)
    (found : WebAuth Digest) (hget : (servers.insert server kept).get other = some found) :
    ∃ old, servers.get other = some old ∧
      found.usedBootstrapTokens = old.usedBootstrapTokens := by
  rw [HashTable.get_insert] at hget
  split at hget
  · next heq =>
    obtain rfl := Option.some.inj hget
    exact ⟨auth, heq ▸ hauth, hkept⟩
  · exact ⟨found, hget, rfl⟩

theorem MemoryFollows.step {label : WebStep} (h : MemoryFollows crates world)
    (hstep : webStep crates world label = some next) : MemoryFollows crates next := by
  have hunchanged : ∀ server auth, world.servers.get server = some auth → ∃ old,
      world.servers.get server = some old ∧ auth.usedBootstrapTokens = old.usedBootstrapTokens :=
    fun _ auth hget => ⟨auth, hget, rfl⟩
  cases label with
  | wait seconds nanoseconds =>
      obtain rfl := Option.some.inj hstep
      exact h.of_quiet rfl hunchanged (fun _ _ hcall => Or.inl hcall) (Or.inl rfl)
  | start random =>
      simp only [webStep] at hstep
      split at hstep
      · obtain rfl := Option.some.inj hstep
        exact h.of_quiet rfl hunchanged (fun _ _ hcall => Or.inl hcall) (Or.inl rfl)
      · obtain rfl := Option.some.inj hstep
        exact h.start _ _
  | stop server =>
      obtain rfl := Option.some.inj hstep
      refine h.of_quiet ?_ ?_ ?_ ?_
      · rfl
      · intro other auth hget
        exact ⟨auth, (HashTable.get_retain_eq_some.mp hget).1, rfl⟩
      · exact fun _ _ hcall => Or.inl (List.mem_of_mem_filter hcall)
      · exact Or.inl rfl
  | create server nonce =>
      obtain ⟨auth, -, rfl⟩ := Option.map_eq_some_iff.mp hstep
      split
      · refine h.of_quiet rfl hunchanged (fun _ _ hcall => Or.inl hcall) (Or.inr ⟨_, rfl, ?_⟩)
        intro other checked fresh heq
        cases heq
      · exact h
  | present server encoded =>
      obtain ⟨auth, -, rfl⟩ := Option.map_eq_some_iff.mp hstep
      split
      · next checked hchecked =>
        refine h.of_quiet ?_ hunchanged ?_ (Or.inl rfl)
        · rfl
        intro other waiting hcall
        rw [List.mem_append, List.mem_singleton] at hcall
        obtain hcall | heq := hcall
        · exact Or.inl hcall
        · cases heq
          obtain ⟨-, -, hnotExpired, hnotAhead⟩ := checkBootstrapToken_eq_ok hchecked
          exact Or.inr ⟨hnotExpired, hnotAhead⟩
      · exact h
  | redeem server checked =>
      simp only [webStep] at hstep
      split at hstep
      · next hcall =>
        obtain ⟨auth, hauth, rfl⟩ := Option.map_eq_some_iff.mp hstep
        apply h.redeem hauth hcall
        intro other waiting hmem
        rw [List.mem_append] at hmem
        obtain hmem | hmem := hmem
        · exact List.mem_of_mem_erase hmem
        · split at hmem
          · cases List.mem_singleton.mp hmem
          · cases hmem
      · cases hstep
  | «open» server checked session =>
      simp only [webStep] at hstep
      split at hstep
      · obtain ⟨auth, hauth, rfl⟩ := Option.map_eq_some_iff.mp hstep
        refine h.of_quiet ?_ (exists_of_get_insert hauth ?_)
          (fun _ _ hcall => Or.inl (List.mem_of_mem_erase hcall)) (Or.inr ⟨_, rfl, ?_⟩)
        · rfl
        · rfl
        intro other noted fresh heq
        cases heq
      · cases hstep
  | giveUp server call =>
      obtain rfl := Option.some.inj hstep
      exact h.of_quiet rfl hunchanged (fun _ _ hcall => Or.inl (List.mem_of_mem_erase hcall))
        (Or.inl rfl)
  | ask server encoded =>
      obtain ⟨auth, -, rfl⟩ := Option.map_eq_some_iff.mp hstep
      split
      · refine h.of_quiet ?_ hunchanged ?_ (Or.inl rfl)
        · rfl
        intro other waiting hcall
        rw [List.mem_append, List.mem_singleton] at hcall
        obtain hcall | heq := hcall
        · exact Or.inl hcall
        · cases heq
      · exact h
  | admitSession server session now =>
      simp only [webStep] at hstep
      split at hstep
      · obtain ⟨auth, hauth, rfl⟩ := Option.map_eq_some_iff.mp hstep
        refine h.of_quiet ?_ (exists_of_get_insert hauth ?_)
          (fun _ _ hcall => Or.inl (List.mem_of_mem_erase hcall)) ?_
        · rfl
        · rfl
        dsimp only
        split
        · refine Or.inr ⟨_, rfl, ?_⟩
          intro other noted fresh heq
          cases heq
        · exact Or.inl (List.append_nil _)
      · cases hstep

/-! ## The sessions -/

/-- A session is admitted under the digest of one that an exchange of the server opened. -/
def AdmittedByDigest (crates : AuthCrates Digest) (before : List AuthEvent) (event : AuthEvent) :
    Prop :=
  ∀ server session now, event = .admitted server session now → ∃ checked issued createdAt,
    .opened server checked issued createdAt ∈ before ∧
      crates.sha256 issued = crates.sha256 session ∧ now ≤ createdAt + sessionTtl

/-- The sessions that a server holds were opened by its exchanges. -/
structure SessionsIssued (crates : AuthCrates Digest) (world : WebWorld Digest) : Prop where
  held : ∀ server auth, world.servers.get server = some auth → ∀ digest createdAt,
    auth.sessions.get digest = some createdAt → ∃ checked issued,
      .opened server checked issued createdAt ∈ world.trace ∧ crates.sha256 issued = digest
  admitted : Trace.Always (AdmittedByDigest crates) world.trace

omit [DecidableEq Digest] in
/-- The servers hold sessions that they held before or that were opened since. -/
theorem SessionsIssued.of_held (h : SessionsIssued crates world)
    (hservers : ∀ server auth, next.servers.get server = some auth → ∀ digest createdAt,
      auth.sessions.get digest = some createdAt →
        (∃ old, world.servers.get server = some old ∧
          old.sessions.get digest = some createdAt) ∨
        ∃ checked issued, .opened server checked issued createdAt ∈ next.trace ∧
          crates.sha256 issued = digest)
    (htrace : next.trace = world.trace ∨ ∃ event, next.trace = world.trace ++ [event] ∧
      AdmittedByDigest crates world.trace event) : SessionsIssued crates next := by
  have hmore : world.trace ⊆ next.trace := by
    obtain hsame | ⟨event, hevent, -⟩ := htrace
    · rw [hsame]
      exact List.Subset.refl _
    · rw [hevent]
      exact List.subset_append_left _ _
  constructor
  · intro server auth hget digest createdAt hsession
    obtain ⟨old, hold, hkept⟩ | hopened := hservers server auth hget digest createdAt hsession
    · obtain ⟨checked, issued, hmem, hdigest⟩ := h.held server old hold digest createdAt hkept
      exact ⟨checked, issued, hmore hmem, hdigest⟩
    · exact hopened
  · obtain hsame | ⟨event, hevent, hadmitted⟩ := htrace
    · rw [hsame]
      exact h.admitted
    · rw [hevent, Trace.always_concat]
      exact ⟨h.admitted, hadmitted⟩

omit [DecidableEq Digest] in
/-- A replaced server holds the sessions it held before. -/
theorem exists_session_of_get_insert {servers : HashTable Nat (WebAuth Digest)} {server : Nat}
    {auth kept : WebAuth Digest} (hauth : servers.get server = some auth)
    (hkept : ∀ digest createdAt, kept.sessions.get digest = some createdAt →
      auth.sessions.get digest = some createdAt) (other : Nat) (found : WebAuth Digest)
    (hget : (servers.insert server kept).get other = some found) (digest : Digest)
    (createdAt : Nat) (hsession : found.sessions.get digest = some createdAt) :
    ∃ old, servers.get other = some old ∧ old.sessions.get digest = some createdAt := by
  rw [HashTable.get_insert] at hget
  split at hget
  · next heq =>
    obtain rfl := Option.some.inj hget
    exact ⟨auth, heq ▸ hauth, hkept digest createdAt hsession⟩
  · exact ⟨found, hget, hsession⟩

theorem SessionsIssued.step {label : WebStep} (h : SessionsIssued crates world)
    (hstep : webStep crates world label = some next) : SessionsIssued crates next := by
  have hunchanged : ∀ server auth, world.servers.get server = some auth → ∀ digest createdAt,
      auth.sessions.get digest = some createdAt → ∃ old,
        world.servers.get server = some old ∧ old.sessions.get digest = some createdAt :=
    fun _ auth hget _ _ hsession => ⟨auth, hget, hsession⟩
  cases label with
  | wait seconds nanoseconds =>
      obtain rfl := Option.some.inj hstep
      exact ⟨h.held, h.admitted⟩
  | start random =>
      simp only [webStep] at hstep
      split at hstep
      · obtain rfl := Option.some.inj hstep
        exact ⟨h.held, h.admitted⟩
      · obtain rfl := Option.some.inj hstep
        refine h.of_held ?_ (Or.inl rfl)
        intro server auth hget digest createdAt hsession
        rw [HashTable.get_insert] at hget
        split at hget
        · obtain rfl := Option.some.inj hget
          cases hsession
        · exact Or.inl ⟨auth, hget, hsession⟩
  | stop server =>
      obtain rfl := Option.some.inj hstep
      refine h.of_held ?_ (Or.inl rfl)
      intro other auth hget digest createdAt hsession
      exact Or.inl ⟨auth, (HashTable.get_retain_eq_some.mp hget).1, hsession⟩
  | create server nonce =>
      obtain ⟨auth, -, rfl⟩ := Option.map_eq_some_iff.mp hstep
      split
      · refine h.of_held ?_ (Or.inr ⟨_, rfl, ?_⟩)
        · intro other found hget digest createdAt hsession
          exact Or.inl (hunchanged other found hget digest createdAt hsession)
        · intro other session now heq
          cases heq
      · exact h
  | present server encoded =>
      obtain ⟨auth, -, rfl⟩ := Option.map_eq_some_iff.mp hstep
      split
      · exact ⟨h.held, h.admitted⟩
      · exact h
  | redeem server checked =>
      simp only [webStep] at hstep
      split at hstep
      · obtain ⟨auth, hauth, rfl⟩ := Option.map_eq_some_iff.mp hstep
        have hkept : ∀ digest createdAt, (redeemToken crates auth checked).1.sessions.get digest =
            some createdAt → auth.sessions.get digest = some createdAt := fun _ _ hheld => hheld
        refine h.of_held ?_ (Or.inr ⟨_, rfl, ?_⟩)
        · intro other found hget digest createdAt hsession
          exact Or.inl (exists_session_of_get_insert hauth hkept other found hget digest createdAt
            hsession)
        · intro other session now heq
          cases heq
      · cases hstep
  | «open» server checked session =>
      simp only [webStep] at hstep
      split at hstep
      · obtain ⟨auth, hauth, rfl⟩ := Option.map_eq_some_iff.mp hstep
        refine h.of_held ?_ (Or.inr ⟨_, rfl, ?_⟩)
        · intro other found hget digest createdAt hsession
          rw [HashTable.get_insert] at hget
          split at hget
          · next heq =>
            obtain rfl := Option.some.inj hget
            rw [openSession, HashTable.get_insert] at hsession
            split at hsession
            · next hdigest =>
              obtain rfl := Option.some.inj hsession
              refine Or.inr ⟨checked, session, ?_, hdigest.symm⟩
              rw [heq]
              exact List.mem_append_right _ (List.mem_singleton.mpr rfl)
            · exact Or.inl ⟨auth, heq ▸ hauth, hsession⟩
          · exact Or.inl ⟨found, hget, hsession⟩
        · intro other asked now heq
          cases heq
      · cases hstep
  | giveUp server call =>
      obtain rfl := Option.some.inj hstep
      exact ⟨h.held, h.admitted⟩
  | ask server encoded =>
      obtain ⟨auth, -, rfl⟩ := Option.map_eq_some_iff.mp hstep
      split
      · exact ⟨h.held, h.admitted⟩
      · exact h
  | admitSession server session now =>
      simp only [webStep] at hstep
      split at hstep
      · obtain ⟨auth, hauth, rfl⟩ := Option.map_eq_some_iff.mp hstep
        have hkept : ∀ digest createdAt, (admitSession crates auth session now).1.sessions.get
            digest = some createdAt → auth.sessions.get digest = some createdAt :=
          fun _ _ hheld => (HashTable.get_retain_eq_some.mp hheld).1
        refine h.of_held ?_ ?_
        · intro other found hget digest createdAt hsession
          exact Or.inl (exists_session_of_get_insert hauth hkept other found hget digest createdAt
            hsession)
        · dsimp only
          split
          · next hadmitted =>
            refine Or.inr ⟨_, rfl, ?_⟩
            intro other asked read heq
            cases heq
            obtain ⟨createdAt, hsession, hrecent⟩ := admitSession_eq_true hadmitted
            obtain ⟨checked, issued, hmem, hdigest⟩ :=
              h.held server auth hauth _ createdAt hsession
            exact ⟨checked, issued, createdAt, hmem, hdigest, hrecent⟩
          · exact Or.inl (List.append_nil _)
      · cases hstep

/-! ## Exchanges -/

/-- The token that a call under way has redeemed. -/
def openingTokens : Nat × WebCall → List Bytes
  | (_, .open checked) => [checked.token]
  | _ => []

/-- What is opened or will be was redeemed, once for each time and within the lifetime. -/
structure ExchangesCount (world : WebWorld Digest) : Prop where
  opening : ∀ server checked, (server, .open checked) ∈ world.calls → checked.InTime
  opened : ∀ server checked session createdAt,
    .opened server checked session createdAt ∈ world.trace → checked.InTime
  created : ∀ token clock, .created token clock ∈ world.trace →
    (expiresAt token : Int) = clock + bootstrapTtl
  spent : ∀ token, (world.trace.flatMap AuthEvent.exchangedTokens).count token +
    (world.calls.flatMap openingTokens).count token ≤
      (world.trace.flatMap AuthEvent.redeemedTokens).count token

omit [DecidableEq Digest] in
/-- A step that only drops calls or adds some that opened nothing yet. -/
theorem ExchangesCount.of_calls (h : ExchangesCount world) (htrace : next.trace = world.trace)
    (hcalls : (next.calls.flatMap openingTokens).Sublist (world.calls.flatMap openingTokens))
    (hopening : ∀ server checked, (server, .open checked) ∈ next.calls →
      (server, .open checked) ∈ world.calls) : ExchangesCount next := by
  constructor
  · intro server checked hcall
    exact h.opening server checked (hopening server checked hcall)
  · rw [htrace]
    exact h.opened
  · rw [htrace]
    exact h.created
  · intro token
    rw [htrace]
    calc (world.trace.flatMap AuthEvent.exchangedTokens).count token +
          (next.calls.flatMap openingTokens).count token
        ≤ (world.trace.flatMap AuthEvent.exchangedTokens).count token +
          (world.calls.flatMap openingTokens).count token :=
          Nat.add_le_add_left (hcalls.count_le token) _
      _ ≤ (world.trace.flatMap AuthEvent.redeemedTokens).count token := h.spent token

/-- One call less of those that open a session. -/
theorem count_openingTokens_erase {calls : List (Nat × WebCall)} {server : Nat}
    {checked : CheckedToken} (hcall : (server, .open checked) ∈ calls) (token : Bytes) :
    (calls.flatMap openingTokens).count token =
      ((calls.erase (server, .open checked)).flatMap openingTokens).count token +
        [checked.token].count token := by
  have hperm := (List.perm_cons_erase hcall).flatMap_right openingTokens
  rw [hperm.count_eq, List.flatMap_cons, List.count_append, Nat.add_comm]
  rfl

theorem flatMap_erase_sublist (calls : List (Nat × WebCall)) (call : Nat × WebCall) :
    ((calls.erase call).flatMap openingTokens).Sublist (calls.flatMap openingTokens) :=
  List.Sublist.flatMap (List.erase_sublist) openingTokens

theorem ExchangesCount.step {label : WebStep} (h : ExchangesCount world)
    (hmemory : MemoryFollows crates world) (hstep : webStep crates world label = some next) :
    ExchangesCount next := by
  cases label with
  | wait seconds nanoseconds =>
      obtain rfl := Option.some.inj hstep
      exact ⟨h.opening, h.opened, h.created, h.spent⟩
  | start random =>
      simp only [webStep] at hstep
      split at hstep
      · obtain rfl := Option.some.inj hstep
        exact ⟨h.opening, h.opened, h.created, h.spent⟩
      · obtain rfl := Option.some.inj hstep
        exact ⟨h.opening, h.opened, h.created, h.spent⟩
  | stop server =>
      obtain rfl := Option.some.inj hstep
      apply h.of_calls
      · rfl
      · exact List.Sublist.flatMap List.filter_sublist openingTokens
      · exact fun _ _ hcall => List.mem_of_mem_filter hcall
  | create server nonce =>
      obtain ⟨auth, -, rfl⟩ := Option.map_eq_some_iff.mp hstep
      split
      · next token htoken =>
        constructor
        · exact h.opening
        · intro other checked session createdAt hmem
          apply h.opened other checked session createdAt
          simpa using hmem
        · intro other clock hmem
          rw [List.mem_append, List.mem_singleton] at hmem
          obtain hmem | heq := hmem
          · exact h.created other clock hmem
          · cases heq
            exact expiresAt_createBootstrapToken htoken
        · intro other
          simpa [AuthEvent.exchangedTokens, AuthEvent.redeemedTokens] using h.spent other
      · exact h
  | present server encoded =>
      obtain ⟨auth, -, rfl⟩ := Option.map_eq_some_iff.mp hstep
      split
      · apply h.of_calls
        · rfl
        · simp [openingTokens]
        · intro other checked hcall
          simpa using hcall
      · exact h
  | redeem server checked =>
      simp only [webStep] at hstep
      split at hstep
      · next hcall =>
        obtain ⟨auth, hauth, rfl⟩ := Option.map_eq_some_iff.mp hstep
        have herase := flatMap_erase_sublist world.calls (server, .redeem checked)
        constructor
        · intro other opening hmem
          rw [List.mem_append] at hmem
          obtain hmem | hmem := hmem
          · exact h.opening other opening (List.mem_of_mem_erase hmem)
          · split at hmem
            · cases List.mem_singleton.mp hmem
              exact hmemory.waiting server checked hcall
            · cases hmem
        · intro other noted session createdAt hmem
          apply h.opened other noted session createdAt
          simpa using hmem
        · intro token clock hmem
          apply h.created token clock
          simpa using hmem
        · intro token
          have hspent := h.spent token
          have hless := herase.count_le token
          cases hfresh : (redeemToken crates auth checked).2 with
          | true =>
              simp only [List.flatMap_append, List.flatMap_singleton, List.count_append, if_true,
                AuthEvent.exchangedTokens, AuthEvent.redeemedTokens, openingTokens,
                List.count_nil]
              omega
          | false =>
              simp only [List.flatMap_append, List.flatMap_singleton, List.count_append,
                Bool.false_eq_true, if_false, AuthEvent.exchangedTokens,
                AuthEvent.redeemedTokens, List.count_nil, List.flatMap_nil]
              omega
      · cases hstep
  | «open» server checked session =>
      simp only [webStep] at hstep
      split at hstep
      · next hcall =>
        obtain ⟨auth, hauth, rfl⟩ := Option.map_eq_some_iff.mp hstep
        constructor
        · intro other waiting hmem
          exact h.opening other waiting (List.mem_of_mem_erase hmem)
        · intro other noted issued createdAt hmem
          rw [List.mem_append, List.mem_singleton] at hmem
          obtain hmem | heq := hmem
          · exact h.opened other noted issued createdAt hmem
          · cases heq
            exact h.opening server checked hcall
        · intro token clock hmem
          apply h.created token clock
          simpa using hmem
        · intro token
          have hspent := h.spent token
          rw [count_openingTokens_erase hcall] at hspent
          simp only [List.flatMap_append, List.flatMap_singleton, List.count_append,
            AuthEvent.exchangedTokens, AuthEvent.redeemedTokens, List.count_nil]
          omega
      · cases hstep
  | giveUp server call =>
      obtain rfl := Option.some.inj hstep
      apply h.of_calls
      · rfl
      · exact flatMap_erase_sublist world.calls (server, call)
      · exact fun _ _ hcall => List.mem_of_mem_erase hcall
  | ask server encoded =>
      obtain ⟨auth, -, rfl⟩ := Option.map_eq_some_iff.mp hstep
      split
      · apply h.of_calls
        · rfl
        · simp [openingTokens]
        · intro other checked hcall
          simpa using hcall
      · exact h
  | admitSession server session now =>
      simp only [webStep] at hstep
      split at hstep
      · obtain ⟨auth, hauth, rfl⟩ := Option.map_eq_some_iff.mp hstep
        have herase := flatMap_erase_sublist world.calls (server, .admitSession session now)
        have hkept : ∀ event, event ∈ world.trace ++ (if (admitSession crates auth session now).2
            then [AuthEvent.admitted server session now] else []) →
            event ∈ world.trace ∨ event = .admitted server session now := by
          intro event hmem
          rw [List.mem_append] at hmem
          apply hmem.imp_right
          intro hnew
          split at hnew
          · exact List.mem_singleton.mp hnew
          · cases hnew
        constructor
        · intro other opening hmem
          exact h.opening other opening (List.mem_of_mem_erase hmem)
        · intro other noted issued createdAt hmem
          obtain hmem | heq := hkept _ hmem
          · exact h.opened other noted issued createdAt hmem
          · cases heq
        · intro token clock hmem
          obtain hmem | heq := hkept _ hmem
          · exact h.created token clock hmem
          · cases heq
        · intro token
          have hspent := h.spent token
          have hless := herase.count_le token
          cases hadmitted : (admitSession crates auth session now).2 with
          | true =>
              simp only [List.flatMap_append, List.flatMap_singleton, List.count_append, if_true,
                AuthEvent.exchangedTokens, AuthEvent.redeemedTokens, List.count_nil]
              omega
          | false =>
              simp only [Bool.false_eq_true, if_false, List.append_nil]
              omega
      · cases hstep

end Memex.Web
