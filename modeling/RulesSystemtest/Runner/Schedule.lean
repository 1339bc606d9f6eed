import RulesSystemtest.Runner.Acquisition
import RulesSystemtest.Runner.Handouts

/-! When a run does what. The answers of the environment fix all times: how long each of
them takes, which reply ends a polling, and which fixture is the last one that the runner
turns to. The events of the trace happen at these times. -/

namespace RulesSystemtest.Runner

open Library

variable {W : World} {S : Setup} {path : String} {t u : List Event} {e : Event} {x n m : ℕ} {p : Event → Bool}
  {fx : ResolvedFixture} {fixtures : List ResolvedFixture} {leases : List ActiveLease} {env : Env}
  {answers : LeaseAnswers} {resp : TakeLeaseResponse} {id : String}

/-! ### Times in the answers -/

/-- When a polling is over: at the reply that ends it, or else at its deadline. All times
are counted from its start. -/
def pollTime (timeout : ℕ) : ℕ → ℕ → List PollAnswer → ℕ
  | _, now, [] => max now timeout
  | last, now, answer :: answers =>
    let tick := nextTick pollInterval last now
    match pollOutcome answer with
    | some _ => tick + answer.took
    | none => pollTime timeout tick (tick + answer.took) answers

/-- How long a lease is waited for after the reply to `TakeLease`. -/
def provisioning (startupTimeout : Int64) (answers : LeaseAnswers) : ℕ :=
  match answers.takeLease with
  | .error _ => 0
  | .ok resp =>
    if resp.status = pending then
      pollTime (if startupTimeout ≤ 0 then defaultStartupTimeout else startupTimeout).toInt.toNat 0 0 answers.polls
    else 0

/-- When the runner turns to its `n`-th fixture, if it does. -/
def turnAt (W : World) (S : Setup) : ℕ → ℕ
  | 0 => 0
  | n + 1 => turnAt W S n + ((W.lease n).takeLeaseTook + provisioning (startupTimeout S) (W.lease n))

/-- When `TakeLease` is answered. -/
def repliedAt (W : World) (S : Setup) (n : ℕ) : ℕ := turnAt W S n + (W.lease n).takeLeaseTook

/-- When the lease is decided. -/
def decidedAt (W : World) (S : Setup) (n : ℕ) : ℕ := repliedAt W S n + provisioning (startupTimeout S) (W.lease n)

theorem turnAt_mono : Monotone (turnAt W S) := monotone_nat_of_le_succ fun _ => Nat.le_add_right _ _

/-- A fixture whose lease is granted, and whose ports outputs can be parsed. -/
def goesOn (W : World) (n : ℕ) (fx : ResolvedFixture) : Bool :=
  ((handout (W.lease n)).bind (·.outputs)).any fun outputs =>
    (portEnvFromOutputs W.unmarshalPorts fx.name ((W.lease n).range.list outputs)).isOk

/-- The number of fixtures that the runner turns to: all of them, or those up to the first
one that fails. -/
def turns (W : World) : ℕ → List ResolvedFixture → ℕ
  | _, [] => 0
  | n, fx :: fixtures => if goesOn W n fx then turns W (n + 1) fixtures + 1 else 1

def allGoOn (W : World) : ℕ → List ResolvedFixture → Bool
  | _, [] => true
  | n, fx :: fixtures => goesOn W n fx && allGoOn W (n + 1) fixtures

def TestAnswer.took : TestAnswer → ℕ
  | .notStarted _ => 0
  | .ran took _ => took

/-- When the test is over, or the run failed without one. -/
def testedAt (W : World) (S : Setup) : ℕ :=
  turnAt W S (turns W 0 S.fixtures) + if allGoOn W 0 S.fixtures then W.test.took else 0

/-- How long the first `n` releases take. -/
def releasesTook (W : World) : ℕ → ℕ
  | 0 => 0
  | n + 1 => releasesTook W n + (W.lease n).releaseTook

/-- When the lease for the `n`-th fixture is released, or the run ends without that. -/
def releasedAt (W : World) (S : Setup) (n : ℕ) : ℕ :=
  testedAt W S + releasesTook W (min n (acquiredIds (handouts W 0 S.fixtures)).length)

/-! ### Times in a trace -/

/-- The event happens at this time. -/
def At (t : List Event) (e : Event) (x : ℕ) : Prop := ∃ before after, t = before ++ e :: after ∧ clock before = x

theorem At.mem (h : At t e x) : e ∈ t := by
  obtain ⟨before, after, rfl, -⟩ := h
  simp

theorem at_append : At (t ++ u) e x ↔ At t e x ∨ ∃ y, At u e y ∧ x = clock t + y := by
  constructor
  · rintro ⟨before, after, heq, rfl⟩
    rcases List.append_eq_append_iff.1 heq with ⟨c, rfl, hc⟩ | ⟨c, ht, hc⟩
    · exact .inr ⟨clock c, ⟨c, after, hc, rfl⟩, clock_append⟩
    · cases c with
      | nil => exact .inr ⟨0, ⟨[], after, by simpa using hc.symm, rfl⟩, by rw [ht, List.append_nil]; rfl⟩
      | cons e' c =>
        obtain ⟨rfl, -⟩ := List.cons.inj hc
        exact .inl ⟨before, c, ht, rfl⟩
  · rintro (⟨before, after, rfl, rfl⟩ | ⟨y, ⟨before, after, rfl, rfl⟩, rfl⟩)
    · exact ⟨before, after ++ u, by simp, rfl⟩
    · exact ⟨t ++ before, after, by simp, clock_append⟩

theorem at_singleton {e' : Event} : At [e'] e x ↔ e = e' ∧ x = 0 := by
  constructor
  · rintro ⟨before, after, heq, rfl⟩
    cases before with
    | nil =>
      obtain ⟨rfl, -⟩ := List.cons.inj heq
      exact ⟨rfl, rfl⟩
    | cons e'' before =>
      have hnil := (List.cons.inj heq).2
      exact absurd hnil.symm (by simp)
  · rintro ⟨rfl, rfl⟩
    exact ⟨[], [], rfl, rfl⟩

theorem at_append_left (h : e ∉ u) : At (t ++ u) e x ↔ At t e x := by
  rw [at_append]
  exact or_iff_left fun ⟨y, hy, _⟩ => h hy.mem

theorem at_append_right (h : e ∉ t) : At (t ++ u) e x ↔ ∃ y, At u e y ∧ x = clock t + y := by
  rw [at_append]
  exact or_iff_right fun hx => h hx.mem

/-- The time until an event of some kind, or until the end. -/
def timeUntil (p : Event → Bool) (t : List Event) : ℕ := clock (t.takeWhile fun e => !p e)

theorem timeUntil_append (h : ∀ e ∈ t, p e = false) : timeUntil p (t ++ u) = clock t + timeUntil p u := by
  unfold timeUntil
  rw [List.takeWhile_append_of_pos (fun e he => by rw [h e he]; rfl), clock_append]

theorem timeUntil_cons {e : Event} :
    timeUntil p (e :: t) = if p e = true then 0 else clock [e] + timeUntil p t := by
  unfold timeUntil
  rw [List.takeWhile_cons]
  cases p e with
  | true => rfl
  | false => exact clock_append (t := [e])

/-! ### One lease -/

theorem clock_pollUntilDone (leaseID : String) (timeout last now : ℕ) (polls : List PollAnswer) :
    now + clock (pollUntilDone n leaseID timeout last now polls).trace = pollTime timeout last now polls := by
  induction polls generalizing last now with
  | nil =>
    simp only [pollUntilDone, pollTime, clock]
    omega
  | cons answer polls ih =>
    have hnow : now ≤ nextTick pollInterval last now := le_max_left ..
    unfold pollUntilDone pollTime pollOutcome
    cases answer.reply with
    | error e =>
      simp only [clock]
      omega
    | ok resp =>
      by_cases hd : resp.status = succeeded ∨ resp.status = failed
      · simp only [hd, if_true, clock_append, clock]
        omega
      · have hrest := ih (nextTick pollInterval last now) (nextTick pollInterval last now + answer.took)
        simp only [hd, if_false, clock_append, clock]
        omega

theorem clock_takeLeaseCall {clientID : String} {ttlSeconds : Int64} :
    clock (takeLeaseCall n fx clientID ttlSeconds answers) = answers.takeLeaseTook := by
  simp [takeLeaseCall, clock]

theorem clock_takeLeaseTrace {clientID : String} {ttlSeconds startupTimeout : Int64}
    (htake : answers.takeLease = .ok resp) :
    clock (takeLeaseTrace n fx clientID ttlSeconds startupTimeout answers resp) =
      answers.takeLeaseTook + provisioning startupTimeout answers := by
  rw [takeLeaseTrace, clock_append, clock_takeLeaseCall, Nat.add_right_inj]
  change clock (awaitLease n startupTimeout resp answers.polls).trace = _
  unfold awaitLease provisioning
  simp only [htake]
  split
  · simpa using clock_pollUntilDone resp.leaseId _ 0 0 answers.polls
  · rfl

theorem clock_acquireLease (n : ℕ) (fx : ResolvedFixture) (clientID : String) (ttlSeconds startupTimeout : Int64)
    (answers : LeaseAnswers) : clock (acquireLease n fx clientID ttlSeconds startupTimeout answers).trace =
      answers.takeLeaseTook + provisioning startupTimeout answers := by
  rcases acquireLease_cases n fx clientID ttlSeconds startupTimeout answers with
    ⟨e, e', htake, heq⟩ | ⟨resp, e, htake, -, heq⟩ | ⟨resp, final, htake, -, -, heq⟩
  · simp [heq, clock_takeLeaseCall, provisioning, htake]
  · rw [heq, clock_takeLeaseTrace htake]
  · rw [heq, clock_append, clock_takeLeaseTrace htake]
    rfl

/-- A lease is handed out by the reply that says so. -/
theorem handout_iff : (∃ outputs, handout answers = some ⟨id, outputs⟩) ↔
    ∃ resp, answers.takeLease = .ok resp ∧ grantedId resp = some id := by
  unfold handout
  cases answers.takeLease with
  | error e => simp
  | ok resp => simp

theorem at_takeLeaseTrace {clientID : String} {ttlSeconds startupTimeout : Int64} {resp' : TakeLeaseResponse} :
    At (takeLeaseTrace n fx clientID ttlSeconds startupTimeout answers resp') (.takeLeaseReply m resp) x ↔
      m = n ∧ resp = resp' ∧ x = answers.takeLeaseTook := by
  have hnotcall : .takeLeaseReply m resp ∉ takeLeaseCall n fx clientID ttlSeconds answers := by simp [takeLeaseCall]
  have hnotpoll : .takeLeaseReply m resp ∉ (awaitLease n startupTimeout resp' answers.polls).trace :=
    fun he => awaitLease_polling _ he
  rw [takeLeaseTrace, ← List.singleton_append, at_append_right hnotcall]
  simp only [at_append_left hnotpoll, at_singleton, clock_takeLeaseCall]
  constructor
  · rintro ⟨y, ⟨heq, rfl⟩, rfl⟩
    cases heq
    exact ⟨rfl, rfl, rfl⟩
  · rintro ⟨rfl, rfl, rfl⟩
    exact ⟨0, ⟨rfl, rfl⟩, rfl⟩

theorem startKeepalive_notMem {clientID : String} {ttlSeconds startupTimeout : Int64} {resp : TakeLeaseResponse} :
    .startKeepalive m id ∉ takeLeaseTrace n fx clientID ttlSeconds startupTimeout answers resp := by
  intro he
  rcases List.mem_append.1 he with he | he
  · simp [takeLeaseCall] at he
  · rcases List.mem_cons.1 he with he | he
    · cases he
    · exact awaitLease_polling _ he

/-- The reply to `TakeLease` comes when the call is over. -/
theorem at_reply_acquireLease {clientID : String} {ttlSeconds startupTimeout : Int64} :
    At (acquireLease n fx clientID ttlSeconds startupTimeout answers).trace (.takeLeaseReply m resp) x ↔
      m = n ∧ answers.takeLease = .ok resp ∧ x = answers.takeLeaseTook := by
  rcases acquireLease_cases n fx clientID ttlSeconds startupTimeout answers with
    ⟨e, e', htake, heq⟩ | ⟨resp', e, htake, -, heq⟩ | ⟨resp', final, htake, -, -, heq⟩
  · rw [heq, htake]
    refine iff_of_false (fun hat => ?_) (by simp)
    simpa [takeLeaseCall] using hat.mem
  · rw [heq, htake, at_takeLeaseTrace, Except.ok.injEq, eq_comm (a := resp)]
  · rw [heq, htake, at_append_left (by simp), at_takeLeaseTrace, Except.ok.injEq, eq_comm (a := resp)]

/-- The keepalive loop of a lease starts when the lease is decided, if it is granted. -/
theorem at_startKeepalive_acquireLease {clientID : String} {ttlSeconds startupTimeout : Int64} :
    At (acquireLease n fx clientID ttlSeconds startupTimeout answers).trace (.startKeepalive m id) x ↔
      m = n ∧ (∃ outputs, handout answers = some ⟨id, some outputs⟩) ∧
        x = answers.takeLeaseTook + provisioning startupTimeout answers := by
  rcases acquireLease_cases n fx clientID ttlSeconds startupTimeout answers with
    ⟨e, e', htake, heq⟩ | ⟨resp, e, htake, hrefused, heq⟩ | ⟨resp, final, htake, hdecision, hsucceeded, heq⟩
  · rw [heq]
    refine iff_of_false (fun hat => ?_) (by simp [handout, htake])
    simpa [takeLeaseCall] using hat.mem
  · rw [heq]
    refine iff_of_false (fun hat => startKeepalive_notMem hat.mem) ?_
    rw [handout_of_refused htake hrefused]
    simp
  · obtain ⟨hhandout, -⟩ := handout_of_granted htake hdecision hsucceeded
    rw [heq, at_append_right startKeepalive_notMem, clock_takeLeaseTrace htake, hhandout]
    simp only [at_singleton]
    constructor
    · rintro ⟨y, ⟨hstart, rfl⟩, rfl⟩
      cases hstart
      exact ⟨rfl, ⟨_, rfl⟩, rfl⟩
    · rintro ⟨rfl, ⟨outputs, hout⟩, rfl⟩
      cases hout
      exact ⟨0, ⟨rfl, rfl⟩, rfl⟩

/-! ### The loop over the fixtures -/

theorem handouts_cons (W : World) (n : ℕ) (fx : ResolvedFixture) (fixtures : List ResolvedFixture) :
    handouts W n (fx :: fixtures) =
      (handout (W.lease n)).toList ++ if goesOn W n fx then handouts W (n + 1) fixtures else [] := by
  rw [handouts, goesOn]
  cases handout (W.lease n) with
  | none => rfl
  | some h =>
    cases hout : h.outputs with
    | none => simp [hout]
    | some outputs =>
      cases hports : portEnvFromOutputs W.unmarshalPorts fx.name ((W.lease n).range.list outputs) with
      | error e => simp [hout, hports, Except.isOk, Except.toBool]
      | ok portEnv => simp [hout, hports, Except.isOk, Except.toBool]

/-- The loop ends at a fixture, with its lease or without, or it goes on with it. -/
theorem leaseFixtures_turn (W : World) (S : Setup) (n : ℕ) (fx : ResolvedFixture) (fixtures : List ResolvedFixture)
    (leases : List ActiveLease) (env : Env) :
    (goesOn W n fx = false ∧ ∃ more e, leaseFixtures W S n (fx :: fixtures) leases env = ⟨leases ++ more, .error e,
        (acquireLease n fx S.clientID S.cfg.leaseTTLSeconds (startupTimeout S) (W.lease n)).trace⟩ ∧
      more.map (·.stop) = List.range' n (acquiredIds (handout (W.lease n)).toList).length) ∨
    (goesOn W n fx = true ∧ (acquiredIds (handout (W.lease n)).toList).length = 1 ∧ ∃ lease portEnv, lease.stop = n ∧
      leaseFixtures W S n (fx :: fixtures) leases env =
        let rest := leaseFixtures W S (n + 1) fixtures (leases ++ [lease]) (portEnv ∪ env)
        ⟨rest.leases, rest.result,
          (acquireLease n fx S.clientID S.cfg.leaseTTLSeconds (startupTimeout S) (W.lease n)).trace ++
            .portsParsed n portEnv :: rest.trace⟩) := by
  rw [goesOn]
  rcases acquireLease_cases n fx S.clientID S.cfg.leaseTTLSeconds (startupTimeout S) (W.lease n) with
    ⟨e, e', htake, heq⟩ | ⟨resp, e, htake, hrefused, heq⟩ | ⟨resp, final, htake, hdecision, hsucceeded, heq⟩
  · have hhandout : handout (W.lease n) = none := by rw [handout, htake]
    exact .inl ⟨by simp [hhandout], [], e', by simp [leaseFixtures, heq], by simp [hhandout, acquiredIds]⟩
  · have hhandout := handout_of_refused htake hrefused
    refine .inl ⟨?_, [], e, by simp [leaseFixtures, heq], ?_⟩
    · rw [hhandout]
      cases grantedId resp <;> rfl
    · rw [hhandout]
      cases grantedId resp <;> rfl
  · obtain ⟨hhandout, -⟩ := handout_of_granted htake hdecision hsucceeded
    cases hports : portEnvFromOutputs W.unmarshalPorts fx.name ((W.lease n).range.list final.outputs) with
    | error e =>
      refine .inl ⟨by simp [hhandout, hports, Except.isOk, Except.toBool], [⟨resp.leaseId, final.outputs, n⟩], e, ?_, ?_⟩
      · simp [leaseFixtures, heq, hports]
      · simp [hhandout, acquiredIds]
    | ok portEnv =>
      refine .inr ⟨by simp [hhandout, hports, Except.isOk, Except.toBool], by simp [hhandout, acquiredIds], ?_⟩
      exact ⟨⟨resp.leaseId, final.outputs, n⟩, portEnv, rfl, by simp [leaseFixtures, heq, hports]⟩

theorem clock_leaseFixtures (n : ℕ) (fixtures : List ResolvedFixture) (leases : List ActiveLease) (env : Env) :
    turnAt W S n + clock (leaseFixtures W S n fixtures leases env).trace = turnAt W S (n + turns W n fixtures) := by
  induction fixtures generalizing n leases env with
  | nil => rfl
  | cons fx fixtures ih =>
    have hturn := clock_acquireLease n fx S.clientID S.cfg.leaseTTLSeconds (startupTimeout S) (W.lease n)
    rcases leaseFixtures_turn W S n fx fixtures leases env with ⟨hgo, more, e, heq, -⟩ | ⟨hgo, -, lease, portEnv, -, heq⟩
    · rw [heq, turns, hgo, hturn]
      rfl
    · rw [heq, turns, if_pos hgo]
      have hrest := ih (n + 1) (leases ++ [lease]) (portEnv ∪ env)
      rw [turnAt, Nat.add_right_comm n] at hrest
      rw [clock_append, hturn, ← Nat.add_assoc n, ← hrest]
      simp only [clock]
      omega

theorem stops_leaseFixtures (n : ℕ) (fixtures : List ResolvedFixture) (leases : List ActiveLease) (env : Env) :
    (leaseFixtures W S n fixtures leases env).leases.map (·.stop) =
      leases.map (·.stop) ++ List.range' n (acquiredIds (handouts W n fixtures)).length := by
  induction fixtures generalizing n leases env with
  | nil => simp [leaseFixtures, handouts, acquiredIds]
  | cons fx fixtures ih =>
    have happend : ∀ hs hs' : List Handout, (acquiredIds (hs ++ hs')).length =
        (acquiredIds hs).length + (acquiredIds hs').length := by simp [acquiredIds]
    rcases leaseFixtures_turn W S n fx fixtures leases env with
      ⟨hgo, more, e, heq, hmore⟩ | ⟨hgo, hone, lease, portEnv, hstop, heq⟩
    · rw [heq, handouts_cons, hgo]
      simp [hmore]
    · rw [heq, handouts_cons, if_pos hgo, happend, hone]
      simp only [ih]
      rw [Nat.add_comm 1, List.range'_succ]
      simp [hstop]

theorem isOk_leaseFixtures (n : ℕ) (fixtures : List ResolvedFixture) (leases : List ActiveLease) (env : Env) :
    (leaseFixtures W S n fixtures leases env).result.isOk = allGoOn W n fixtures := by
  induction fixtures generalizing n leases env with
  | nil => rfl
  | cons fx fixtures ih =>
    rcases leaseFixtures_turn W S n fx fixtures leases env with ⟨hgo, more, e, heq, -⟩ | ⟨hgo, -, lease, portEnv, -, heq⟩
    · rw [heq, allGoOn, hgo]
      rfl
    · rw [heq, allGoOn, hgo]
      exact ih _ _ _

theorem handout_of_handouts {k : ℕ} {h : Handout} (hk : (handouts W n fixtures)[k]? = some h) :
    handout (W.lease (n + k)) = some h := by
  induction fixtures generalizing n k with
  | nil => simp [handouts] at hk
  | cons fx fixtures ih =>
    rw [handouts_cons] at hk
    cases hhandout : handout (W.lease n) with
    | none =>
      have hgo : goesOn W n fx = false := by simp [goesOn, hhandout]
      simp [hhandout, hgo] at hk
    | some h' =>
      rw [hhandout] at hk
      cases k with
      | zero =>
        obtain rfl : h' = h := by simpa using hk
        exact hhandout
      | succ k =>
        by_cases hgo : goesOn W n fx = true
        · have hrest : handout (W.lease (n + 1 + k)) = some h := ih (by simpa [hgo] using hk)
          rwa [Nat.add_right_comm] at hrest
        · simp [hgo] at hk

/-- An event that happens once for each lease, at a certain time of its turn, if the answers
say so, happens for the fixtures that the runner turns to. -/
theorem at_leaseFixtures {Q : ℕ → Prop} {d : ℕ → ℕ} (hparsed : ∀ k portEnv, e ≠ .portsParsed k portEnv)
    (hQ : ∀ k, Q k → (handout (W.lease k)).isSome) (hacquire : ∀ k fx y,
      At (acquireLease k fx S.clientID S.cfg.leaseTTLSeconds (startupTimeout S) (W.lease k)).trace e y ↔
        m = k ∧ Q k ∧ y = d k)
    (n : ℕ) (fixtures : List ResolvedFixture) (leases : List ActiveLease) (env : Env) (x : ℕ) :
    At (leaseFixtures W S n fixtures leases env).trace e x ↔
      ∃ k < (handouts W n fixtures).length, m = n + k ∧ Q m ∧ turnAt W S n + x = turnAt W S m + d m := by
  induction fixtures generalizing n leases env x with
  | nil => exact iff_of_false (fun hat => nomatch hat.mem) (by simp [handouts])
  | cons fx fixtures ih =>
    have hlen : Q n → (handout (W.lease n)).toList.length = 1 := by
      intro hq
      obtain ⟨h, hh⟩ := Option.isSome_iff_exists.1 (hQ n hq)
      rw [hh]
      rfl
    rcases leaseFixtures_turn W S n fx fixtures leases env with ⟨hgo, more, e', heq, -⟩ | ⟨hgo, -, lease, portEnv, -, heq⟩
    · rw [heq, hacquire, handouts_cons, hgo]
      simp only [Bool.false_eq_true, if_false, List.append_nil]
      constructor
      · rintro ⟨rfl, hq, rfl⟩
        exact ⟨0, by rw [hlen hq]; exact Nat.one_pos, rfl, hq, rfl⟩
      · rintro ⟨k, hk, rfl, hq, hx⟩
        obtain rfl : k = 0 := by
          have hle : (handout (W.lease n)).toList.length ≤ 1 := by cases handout (W.lease n) <;> simp
          omega
        exact ⟨rfl, hq, by simpa using hx⟩
    · have hsome : (handout (W.lease n)).toList.length = 1 := by
        cases hh : handout (W.lease n) with
        | none => simp [goesOn, hh] at hgo
        | some h => rfl
      have hturn := clock_acquireLease n fx S.clientID S.cfg.leaseTTLSeconds (startupTimeout S) (W.lease n)
      have hcons : ∀ (u : List Event) (y : ℕ), At (.portsParsed n portEnv :: u) e y ↔ At u e y := by
        intro u y
        have hne : e ∉ [Event.portsParsed n portEnv] := by simpa using hparsed n portEnv
        rw [← List.singleton_append, at_append_right hne]
        simp [clock]
      rw [heq, handouts_cons, if_pos hgo, List.length_append, hsome, at_append, hacquire, hturn]
      simp only [hcons, ih (n + 1), turnAt]
      constructor
      · rintro (⟨rfl, hq, rfl⟩ | ⟨y, ⟨k, hk, rfl, hq, hy⟩, rfl⟩)
        · exact ⟨0, by omega, rfl, hq, rfl⟩
        · exact ⟨k + 1, by omega, by omega, hq, by omega⟩
      · rintro ⟨k, hk, rfl, hq, hx⟩
        cases k with
        | zero => exact .inl ⟨rfl, hq, by simpa using hx⟩
        | succ k =>
          have hmono : turnAt W S (n + 1) ≤ turnAt W S (n + (k + 1)) := turnAt_mono (by omega)
          rw [turnAt] at hmono
          exact .inr ⟨_, ⟨k, by omega, by omega, hq, Nat.add_sub_cancel' (hmono.trans (Nat.le_add_right _ _))⟩, by omega⟩

/-! ### The whole run -/

theorem getElem?_handouts {k : ℕ} (hk : k < (handouts W 0 S.fixtures).length) :
    (handouts W 0 S.fixtures)[k]? = handout (W.lease k) := by
  have hself := List.getElem?_eq_getElem hk
  have hhandout := handout_of_handouts hself
  rw [Nat.zero_add] at hhandout
  rw [hself, hhandout]

/-- The loop over the fixtures comes before the test and the releases. -/
theorem notMem_rest (htest : ¬ IsTestEvent e) (hrelease : ¬ IsReleaseEvent e) :
    e ∉ (runTest W S (leasing W S).result).trace ++ releaseAll W (leasing W S).leases := by
  intro he
  rcases List.mem_append.1 he with he | he
  · exact htest (isTestEvent_runTest _ e he)
  · exact hrelease (isReleaseEvent_releaseAll _ e he)

/-- A lease is handed out when its call is over. -/
theorem at_reply (hsetup : setup W path = .ok S) (hid : grantedId resp = some id) :
    At (execute W path).trace (.takeLeaseReply m resp) x ↔
      (∃ outputs, (handouts W 0 S.fixtures)[m]? = some ⟨id, outputs⟩) ∧ (W.lease m).takeLease = .ok resp ∧
        x = repliedAt W S m := by
  have hiff := at_leaseFixtures (W := W) (S := S) (m := m) (Q := fun k => (W.lease k).takeLease = .ok resp)
    (d := fun k => (W.lease k).takeLeaseTook) (e := .takeLeaseReply m resp) (fun _ _ => nofun) ?_ (fun k fx y => ?_)
    0 S.fixtures [] ∅ x
  · have hrest := notMem_rest (W := W) (S := S) (e := .takeLeaseReply m resp) not_false not_false
    rw [execute_trace hsetup, at_append_left hrest, leasing, hiff]
    simp only [Nat.zero_add, turnAt, repliedAt]
    constructor
    · rintro ⟨k, hk, rfl, hreply, rfl⟩
      rw [getElem?_handouts hk]
      exact ⟨handout_iff.2 ⟨resp, hreply, hid⟩, hreply, rfl⟩
    · rintro ⟨⟨outputs, hm⟩, hreply, rfl⟩
      exact ⟨m, (List.getElem?_eq_some_iff.1 hm).1, rfl, hreply, rfl⟩
  · intro k hreply
    obtain ⟨outputs, hout⟩ := handout_iff.2 ⟨resp, hreply, hid⟩
    rw [hout]
    rfl
  · rw [at_reply_acquireLease]

/-- The keepalive loop of a lease starts when the lease is decided, if it is granted. -/
theorem at_startKeepalive (hsetup : setup W path = .ok S) : At (execute W path).trace (.startKeepalive m id) x ↔
    (∃ outputs, (handouts W 0 S.fixtures)[m]? = some ⟨id, some outputs⟩) ∧ x = decidedAt W S m := by
  have hiff := at_leaseFixtures (W := W) (S := S) (m := m)
    (Q := fun k => ∃ outputs, handout (W.lease k) = some ⟨id, some outputs⟩)
    (d := fun k => (W.lease k).takeLeaseTook + provisioning (startupTimeout S) (W.lease k))
    (e := .startKeepalive m id) (fun _ _ => nofun) ?_ (fun k fx y => ?_) 0 S.fixtures [] ∅ x
  · rw [execute_trace hsetup, at_append_left (notMem_rest (e := .startKeepalive m id) not_false not_false), leasing, hiff]
    simp only [Nat.zero_add, turnAt, decidedAt, repliedAt, Nat.add_assoc]
    constructor
    · rintro ⟨k, hk, rfl, hout, rfl⟩
      rw [getElem?_handouts hk]
      exact ⟨hout, rfl⟩
    · rintro ⟨⟨outputs, hm⟩, rfl⟩
      have hk := (List.getElem?_eq_some_iff.1 hm).1
      exact ⟨m, hk, rfl, ⟨outputs, by rw [← getElem?_handouts hk, hm]⟩, rfl⟩
  · rintro k ⟨outputs, hout⟩
    rw [hout]
    rfl
  · rw [at_startKeepalive_acquireLease]

def stops (n : ℕ) : Event → Bool
  | .stopKeepalive m => m = n
  | _ => false

def releases (n : ℕ) : Event → Bool
  | .releaseLease lease => lease.stop = n
  | _ => false

theorem stops_eq_false (h : IsLeaseEvent e ∨ IsTestEvent e) : stops n e = false := by
  cases e with
  | stopKeepalive => exact (h.elim id id).elim
  | _ => rfl

theorem releases_eq_false (h : IsLeaseEvent e ∨ IsTestEvent e) : releases n e = false := by
  cases e with
  | releaseLease => exact (h.elim id id).elim
  | _ => rfl

theorem clock_runTest (result : Except String Env) :
    clock (runTest W S result).trace = if result.isOk then W.test.took else 0 := by
  have hreport : ∀ (exitCode : Int) (duration : ℕ),
      clock (writeJUnitReport W.sink S.cfg.systemtestLabel exitCode duration).trace = 0 := by
    intro exitCode duration
    unfold writeJUnitReport
    split
    · rfl
    · dsimp only
      split
      · rfl
      · split <;> rfl
  cases result with
  | error e => rfl
  | ok env =>
    unfold runTest runTestBinary
    cases W.test with
    | notStarted err => rfl
    | ran took how =>
      cases how with
      | exited status =>
        simp only [clock_append, hreport]
        rfl
      | signaled =>
        simp only [clock_append, hreport]
        rfl
      | lost err => rfl

theorem releaseAll_cons (W : World) (l : ActiveLease) (leases : List ActiveLease) :
    releaseAll W (l :: leases) = .stopKeepalive l.stop :: .releaseLease l ::
      .elapse (W.lease l.stop).releaseTook :: releaseAll W leases := rfl

/-- The loop is stopped when the lease is released. -/
theorem timeUntil_releaseAll (n : ℕ) (leases : List ActiveLease) :
    timeUntil (releases n) (releaseAll W leases) = timeUntil (stops n) (releaseAll W leases) := by
  induction leases with
  | nil => rfl
  | cons l leases ih =>
    rw [releaseAll_cons]
    simp only [timeUntil_cons, ih, releases, stops, clock]
    by_cases hl : l.stop = n <;> simp [hl]

/-- The leases are released in their order. -/
theorem releasesTook_releaseAll {k : ℕ} (hstops : leases.map (·.stop) = List.range' n k) (hn : n ≤ m) :
    releasesTook W n + timeUntil (releases m) (releaseAll W leases) = releasesTook W (min m (n + k)) := by
  induction leases generalizing n k with
  | nil =>
    obtain rfl : k = 0 := by simpa using (congrArg List.length hstops).symm
    rw [Nat.add_zero, min_eq_right hn]
    rfl
  | cons l leases ih =>
    obtain ⟨k, rfl⟩ : ∃ k', k = k' + 1 := ⟨leases.length, by simpa using (congrArg List.length hstops).symm⟩
    rw [List.map_cons, List.range'_succ, List.cons.injEq] at hstops
    obtain ⟨hl, hrest⟩ := hstops
    rw [releaseAll_cons]
    simp only [timeUntil_cons, releases, clock, hl]
    by_cases hm : n = m
    · subst hm
      simp
    · have htail := ih hrest (by omega)
      rw [releasesTook, Nat.add_assoc n 1, Nat.add_comm 1] at htail
      simp only [hm, decide_false, Bool.false_eq_true, if_false]
      omega

/-- The releases begin when the test is over. -/
theorem timeUntil_releasing (hsetup : setup W path = .ok S) (hp : ∀ e, IsLeaseEvent e ∨ IsTestEvent e → p e = false) :
    timeUntil p (execute W path).trace = testedAt W S + timeUntil p (releaseAll W (leasing W S).leases) := by
  have hleasing : clock (leasing W S).trace = turnAt W S (turns W 0 S.fixtures) := by
    have hclock := clock_leaseFixtures (W := W) (S := S) 0 S.fixtures [] ∅
    rwa [turnAt, Nat.zero_add, Nat.zero_add] at hclock
  have hready : (leasing W S).result.isOk = allGoOn W 0 S.fixtures := isOk_leaseFixtures 0 S.fixtures [] ∅
  have hlease : ∀ e ∈ (leasing W S).trace, p e = false :=
    fun e he => hp e (.inl (isLeaseEvent_leaseFixtures _ _ _ _ e he))
  have htest : ∀ e ∈ (runTest W S (leasing W S).result).trace, p e = false :=
    fun e he => hp e (.inr (isTestEvent_runTest _ e he))
  rw [execute_trace hsetup, timeUntil_append hlease, timeUntil_append htest, hleasing, clock_runTest, hready, testedAt,
    Nat.add_assoc]

/-- A lease that is granted is released, and its loop is stopped, after the leases before
it. -/
theorem timeUntil_execute (hsetup : setup W path = .ok S) (m : ℕ) :
    timeUntil (releases m) (execute W path).trace = releasedAt W S m ∧
      timeUntil (stops m) (execute W path).trace = releasedAt W S m := by
  have hstops : (leasing W S).leases.map (·.stop) = List.range' 0 (acquiredIds (handouts W 0 S.fixtures)).length :=
    stops_leaseFixtures 0 S.fixtures [] ∅
  have hreleases := releasesTook_releaseAll (W := W) hstops (Nat.zero_le m)
  rw [releasesTook, Nat.zero_add, Nat.zero_add] at hreleases
  rw [timeUntil_releasing hsetup fun _ => releases_eq_false, timeUntil_releasing hsetup fun _ => stops_eq_false,
    ← timeUntil_releaseAll, hreleases]
  exact ⟨rfl, rfl⟩

end RulesSystemtest.Runner
