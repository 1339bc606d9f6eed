import RulesSystemtest.Library.Ticker
import RulesSystemtest.Runner.Trace

/-! One lease: taking it, polling until it is decided, and giving it back. What the
coordinator answers is an argument. -/

namespace RulesSystemtest.Runner

open Library

/-! ### What the environment answers -/

structure PollAnswer where
  took : ℕ
  reply : Except String StatusResponse

/-- An order in which a map of outputs is ranged over. -/
structure OutputsRange where
  list : BTreeMap Value → List (String × Value)
  perm : ∀ outputs, (list outputs).Perm outputs.toList

/-- The answers for one fixture. The deadline of the polling expires when `polls` is
used up. -/
structure LeaseAnswers where
  takeLeaseTook : ℕ
  takeLease : Except String TakeLeaseResponse
  polls : List PollAnswer
  range : OutputsRange
  keepaliveTook : ℕ → ℕ
  releaseTook : ℕ

/-! ### The calls -/

def second : ℕ := 10 ^ 9

def keepaliveInterval : ℕ := 15 * second

def pollInterval : ℕ := 2 * second

def defaultStartupTimeout : Int64 := 300000000000

def pending : Int32 := LeaseStatus.pending.toInt32

def succeeded : Int32 := LeaseStatus.succeeded.toInt32

def failed : Int32 := LeaseStatus.failed.toInt32

def statusName (status : Int32) : String :=
  if status = LeaseStatus.unknown.toInt32 then "LEASE_STATUS_UNKNOWN"
  else if status = pending then "PENDING"
  else if status = succeeded then "SUCCEEDED"
  else if status = failed then "FAILED"
  else status.toInt.repr

/-- The loop of the poll ticker, whose last tick was received at `last`. All times are
counted from the start of the loop. -/
def pollUntilDone (n : ℕ) (leaseID : String) (timeout : ℕ) :
    ℕ → ℕ → List PollAnswer → Logged (Except String StatusResponse)
  | _, now, [] => ⟨.error "context deadline exceeded", [.elapse (timeout - now)]⟩
  | last, now, answer :: answers =>
    let tick := nextTick pollInterval last now
    let called := [.elapse (tick - now), .status n leaseID, .elapse answer.took]
    match answer.reply with
    | .error e => ⟨.error ("Status: " ++ e), called⟩
    | .ok resp =>
      if resp.status = succeeded ∨ resp.status = failed then ⟨.ok resp, called ++ [.statusReply n resp]⟩
      else
        let rest := pollUntilDone n leaseID timeout tick (tick + answer.took) answers
        ⟨rest.result, called ++ .statusReply n resp :: rest.trace⟩

/-- What the reply to `TakeLease` leads to. -/
def awaitLease (n : ℕ) (startupTimeout : Int64) (resp : TakeLeaseResponse) (polls : List PollAnswer) :
    Logged (Except String StatusResponse) :=
  if resp.status = pending then
    let timeout := if startupTimeout ≤ 0 then defaultStartupTimeout else startupTimeout
    pollUntilDone n resp.leaseId timeout.toInt.toNat 0 0 polls
  else ⟨.ok ⟨resp.status, resp.outputs, resp.messages⟩, []⟩

def acquireLease (n : ℕ) (fixture : ResolvedFixture) (clientID : String) (ttlSeconds startupTimeout : Int64)
    (answers : LeaseAnswers) : Logged (Except String ActiveLease) :=
  let req : TakeLeaseRequest := ⟨some fixture.description, clientID, clientID, ttlSeconds, 1⟩
  let called := [.takeLease n req, .elapse answers.takeLeaseTook]
  match answers.takeLease with
  | .error e => ⟨.error ("fixture " ++ quote fixture.name ++ ": TakeLease: " ++ e), called⟩
  | .ok resp =>
    let awaited := awaitLease n startupTimeout resp answers.polls
    let trace := called ++ .takeLeaseReply n resp :: awaited.trace
    match awaited.result with
    | .error e => ⟨.error ("fixture " ++ quote fixture.name ++ ": waiting for lease: " ++ e), trace⟩
    | .ok final =>
      if final.status ≠ succeeded then
        ⟨.error ("fixture " ++ quote fixture.name ++ ": lease " ++ statusName final.status ++ ": " ++
          String.intercalate "; " final.messages), trace⟩
      else ⟨.ok ⟨resp.leaseId, final.outputs, n⟩, trace ++ [.startKeepalive n resp.leaseId]⟩

/-- What the call returns, and whether it succeeds, is ignored. -/
def releaseLease (lease : ActiveLease) (took : ℕ) : List Event :=
  [.stopKeepalive lease.stop, .releaseLease lease, .elapse took]

/-! ### What a lease comes to -/

variable {n : ℕ} {fixture : ResolvedFixture} {clientID : String} {ttlSeconds startupTimeout : Int64}
  {answers : LeaseAnswers} {resp : TakeLeaseResponse} {polls : List PollAnswer}

/-- The reply that ends the polling, unless an error or the deadline does. -/
def firstDecision : List PollAnswer → Option StatusResponse
  | [] => none
  | answer :: answers =>
    match answer.reply with
    | .error _ => none
    | .ok resp => if resp.status = succeeded ∨ resp.status = failed then some resp else firstDecision answers

/-- The events of waiting for a lease. -/
def IsPollEvent (n : ℕ) : Event → Prop
  | .status m _ => m = n
  | .statusReply m _ => m = n
  | .elapse _ => True
  | _ => False

theorem pollUntilDone_result (leaseID : String) (timeout last now : ℕ) (polls : List PollAnswer) :
    (pollUntilDone n leaseID timeout last now polls).result.toOption = firstDecision polls := by
  induction polls generalizing last now with
  | nil => rfl
  | cons answer polls ih =>
    unfold pollUntilDone firstDecision
    cases answer.reply with
    | error e => rfl
    | ok resp =>
      dsimp only
      split
      · rfl
      · exact ih _ _

theorem pollUntilDone_polling (leaseID : String) (timeout last now : ℕ) (polls : List PollAnswer) :
    ∀ e ∈ (pollUntilDone n leaseID timeout last now polls).trace, IsPollEvent n e := by
  induction polls generalizing last now with
  | nil => simp [pollUntilDone, IsPollEvent]
  | cons answer polls ih =>
    unfold pollUntilDone
    cases answer.reply with
    | error e => simp [IsPollEvent]
    | ok resp =>
      dsimp only
      split
      · simp [IsPollEvent]
      · simpa [IsPollEvent] using ih _ _

theorem statusReply_mem_pollUntilDone (leaseID : String) (timeout last now : ℕ) {final : StatusResponse}
    (h : (pollUntilDone n leaseID timeout last now polls).result = .ok final) :
    .statusReply n final ∈ (pollUntilDone n leaseID timeout last now polls).trace := by
  induction polls generalizing last now with
  | nil => cases h
  | cons answer polls ih =>
    unfold pollUntilDone at h ⊢
    cases hreply : answer.reply with
    | error e =>
      rw [hreply] at h
      cases h
    | ok resp =>
      simp only [hreply] at h ⊢
      split
      · next hdone =>
        rw [if_pos hdone] at h
        cases h
        simp
      · next hdone =>
        rw [if_neg hdone] at h
        simpa using Or.inr (ih _ _ h)

theorem awaitLease_polling : ∀ e ∈ (awaitLease n startupTimeout resp polls).trace, IsPollEvent n e := by
  unfold awaitLease
  split
  · exact pollUntilDone_polling _ _ _ _ _
  · simp

/-- The reply that decides a lease, which is the one to `TakeLease` unless that is
pending. -/
def decision (resp : TakeLeaseResponse) (polls : List PollAnswer) : Option StatusResponse :=
  if resp.status = pending then firstDecision polls else some ⟨resp.status, resp.outputs, resp.messages⟩

theorem awaitLease_result (n : ℕ) (startupTimeout : Int64) (resp : TakeLeaseResponse) (polls : List PollAnswer) :
    (awaitLease n startupTimeout resp polls).result.toOption = decision resp polls := by
  unfold awaitLease decision
  split
  · exact pollUntilDone_result _ _ _ _ _
  · rfl

theorem statusReply_mem_awaitLease (n : ℕ) (startupTimeout : Int64) {final : StatusResponse}
    (hp : resp.status = pending) (h : decision resp polls = some final) :
    .statusReply n final ∈ (awaitLease n startupTimeout resp polls).trace := by
  have hresult := awaitLease_result n startupTimeout resp polls
  rw [h] at hresult
  unfold awaitLease at hresult ⊢
  rw [if_pos hp] at hresult ⊢
  dsimp only at hresult ⊢
  apply statusReply_mem_pollUntilDone
  revert hresult
  cases (pollUntilDone n resp.leaseId _ 0 0 polls).result with
  | error e => exact nofun
  | ok final' => exact fun heq => congrArg _ (Option.some.inj heq)

/-- The call of `TakeLease`. -/
def takeLeaseCall (n : ℕ) (fixture : ResolvedFixture) (clientID : String) (ttlSeconds : Int64)
    (answers : LeaseAnswers) : List Event :=
  [.takeLease n ⟨some fixture.description, clientID, clientID, ttlSeconds, 1⟩, .elapse answers.takeLeaseTook]

/-- The call, its reply, and the polling. -/
def takeLeaseTrace (n : ℕ) (fixture : ResolvedFixture) (clientID : String) (ttlSeconds startupTimeout : Int64)
    (answers : LeaseAnswers) (resp : TakeLeaseResponse) : List Event :=
  takeLeaseCall n fixture clientID ttlSeconds answers ++
    .takeLeaseReply n resp :: (awaitLease n startupTimeout resp answers.polls).trace

/-- The ways in which `acquireLease` ends: without a reply, with a reply that leads to
no lease, or with the lease and a keepalive loop for it. -/
theorem acquireLease_cases (n : ℕ) (fixture : ResolvedFixture) (clientID : String) (ttlSeconds startupTimeout : Int64)
    (answers : LeaseAnswers) :
    (∃ e e', answers.takeLease = .error e ∧ acquireLease n fixture clientID ttlSeconds startupTimeout answers =
      ⟨.error e', takeLeaseCall n fixture clientID ttlSeconds answers⟩) ∨
    (∃ resp e, answers.takeLease = .ok resp ∧
      (∀ final, decision resp answers.polls = some final → final.status ≠ succeeded) ∧
      acquireLease n fixture clientID ttlSeconds startupTimeout answers =
        ⟨.error e, takeLeaseTrace n fixture clientID ttlSeconds startupTimeout answers resp⟩) ∨
    ∃ resp final, answers.takeLease = .ok resp ∧ decision resp answers.polls = some final ∧
      final.status = succeeded ∧ acquireLease n fixture clientID ttlSeconds startupTimeout answers =
        ⟨.ok ⟨resp.leaseId, final.outputs, n⟩, takeLeaseTrace n fixture clientID ttlSeconds startupTimeout answers resp ++
          [.startKeepalive n resp.leaseId]⟩ := by
  cases htake : answers.takeLease with
  | error e => exact .inl ⟨e, _, rfl, by rw [acquireLease, htake]; rfl⟩
  | ok resp =>
    refine .inr ?_
    have hdecision := awaitLease_result n startupTimeout resp answers.polls
    cases hawait : (awaitLease n startupTimeout resp answers.polls).result with
    | error e =>
      rw [hawait] at hdecision
      refine .inl ⟨resp, _, rfl, ?_, by simp only [acquireLease, htake, hawait]; rfl⟩
      rw [← hdecision]
      exact fun _ h => nomatch h
    | ok final =>
      rw [hawait] at hdecision
      by_cases hsucceeded : final.status = succeeded
      · refine .inr ⟨resp, final, rfl, hdecision.symm, hsucceeded, ?_⟩
        simp only [acquireLease, htake, hawait, hsucceeded, ne_eq, not_true_eq_false, if_false]
        rfl
      · refine .inl ⟨resp, ?_, rfl, ?_, ?value⟩
        case value =>
          simp only [acquireLease, htake, hawait, hsucceeded, ne_eq, not_false_eq_true, if_true]
          rfl
        rw [← hdecision]
        rintro _ ⟨⟩
        exact hsucceeded

end RulesSystemtest.Runner
