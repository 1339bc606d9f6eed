import RulesSystemtest.Library.FirstOutcome
import RulesSystemtest.Runner.Lease

/-! What `acquireLease` reports. A lease is returned exactly when the coordinator decided
in favour of it, with the outputs of the reply that said so. A refusal is reported with
the messages of the very reply that refused. -/

namespace RulesSystemtest.Runner

open Library

variable {n : ℕ} {fixture : ResolvedFixture} {clientID : String} {ttlSeconds startupTimeout : Int64}
  {answers : LeaseAnswers} {resp : TakeLeaseResponse} {polls : List PollAnswer} {final : StatusResponse}
  {lease : ActiveLease}

/-! ### The decision -/

/-- A poll after which the polling goes on. -/
def Undecided (answer : PollAnswer) : Prop :=
  ∃ resp, answer.reply = .ok resp ∧ resp.status ≠ succeeded ∧ resp.status ≠ failed

/-- The first poll that ends the polling, before the deadline does, is a reply with
status `SUCCEEDED` or `FAILED`. -/
def DecidedBy (polls : List PollAnswer) (final : StatusResponse) : Prop :=
  ∃ before answer after, polls = before ++ answer :: after ∧ (∀ x ∈ before, Undecided x) ∧
    answer.reply = .ok final ∧ (final.status = succeeded ∨ final.status = failed)

/-- How a poll ends the polling, if it does: with a reply or without one. -/
def pollOutcome (answer : PollAnswer) : Option (Option StatusResponse) :=
  match answer.reply with
  | .error _ => some none
  | .ok resp => if resp.status = succeeded ∨ resp.status = failed then some (some resp) else none

theorem firstDecision_eq (polls : List PollAnswer) : firstDecision polls = firstOutcome pollOutcome none polls := by
  induction polls with
  | nil => rfl
  | cons answer polls ih =>
    rw [firstDecision, firstOutcome, pollOutcome]
    cases answer.reply with
    | error e => rfl
    | ok resp =>
      dsimp only
      split
      · rfl
      · exact ih

theorem pollOutcome_eq_none_iff {answer : PollAnswer} : pollOutcome answer = none ↔ Undecided answer := by
  unfold pollOutcome Undecided
  cases answer.reply with
  | error e => simp
  | ok resp => simp

theorem pollOutcome_eq_reply_iff {answer : PollAnswer} : pollOutcome answer = some (some final) ↔
    answer.reply = .ok final ∧ (final.status = succeeded ∨ final.status = failed) := by
  unfold pollOutcome
  cases answer.reply with
  | error e => simp
  | ok resp =>
    simp only [Option.ite_none_right_eq_some, Option.some.injEq, Except.ok.injEq]
    constructor
    · rintro ⟨hterminal, rfl⟩
      exact ⟨rfl, hterminal⟩
    · rintro ⟨rfl, hterminal⟩
      exact ⟨hterminal, rfl⟩

theorem firstDecision_eq_some_iff : firstDecision polls = some final ↔ DecidedBy polls final := by
  rw [firstDecision_eq, firstOutcome_eq_iff (Option.some_ne_none final)]
  simp only [pollOutcome_eq_none_iff, pollOutcome_eq_reply_iff]
  exact Iff.rfl

/-- The reply that tells what became of the lease: the one to `TakeLease` unless it was
pending, and otherwise the one that ended the polling. -/
def ReportedBy (resp : TakeLeaseResponse) (polls : List PollAnswer) (final : StatusResponse) : Prop :=
  resp.status ≠ pending ∧ final = ⟨resp.status, resp.outputs, resp.messages⟩ ∨
    resp.status = pending ∧ DecidedBy polls final

theorem decision_eq_some_iff : decision resp polls = some final ↔ ReportedBy resp polls final := by
  unfold decision ReportedBy
  by_cases hp : resp.status = pending
  · simp [hp, firstDecision_eq_some_iff]
  · simp [hp, eq_comm]

/-! ### The result -/

theorem acquireLease_eq_ok_iff :
    (acquireLease n fixture clientID ttlSeconds startupTimeout answers).result = .ok lease ↔
      ∃ resp final, answers.takeLease = .ok resp ∧ decision resp answers.polls = some final ∧
        final.status = succeeded ∧ lease = ⟨resp.leaseId, final.outputs, n⟩ := by
  rcases acquireLease_cases n fixture clientID ttlSeconds startupTimeout answers with
    ⟨e, e', htake, heq⟩ | ⟨resp, e, htake, hrefused, heq⟩ | ⟨resp, final, htake, hdecision, hsucceeded, heq⟩
  · simp [heq, htake]
  · rw [heq, htake]
    refine iff_of_false nofun ?_
    rintro ⟨resp', final, hresp, hdecision, hsucceeded, -⟩
    cases hresp
    exact hrefused final hdecision hsucceeded
  · rw [heq, htake]
    constructor
    · rintro ⟨⟩
      exact ⟨resp, final, rfl, hdecision, hsucceeded, rfl⟩
    · rintro ⟨resp', final', hresp, hdecision', -, rfl⟩
      cases hresp
      cases hdecision.symm.trans hdecision'
      rfl

theorem filter_takeLeaseTrace (n : ℕ) (fixture : ResolvedFixture) (clientID : String)
    (ttlSeconds startupTimeout : Int64) (answers : LeaseAnswers) (resp : TakeLeaseResponse) :
    (takeLeaseTrace n fixture clientID ttlSeconds startupTimeout answers resp).filter isStartKeepalive = [] := by
  rw [List.filter_eq_nil_iff]
  intro e he
  rcases List.mem_append.1 he with he | he
  · rcases List.mem_pair.1 he with rfl | rfl <;> simp [isStartKeepalive]
  · rcases List.mem_cons.1 he with rfl | he
    · simp [isStartKeepalive]
    · have hpoll := awaitLease_polling e he
      cases e with
      | startKeepalive m id => exact hpoll.elim
      | _ => simp [isStartKeepalive]

/-- One keepalive loop is started for a lease that is returned, and none otherwise. -/
theorem filter_acquireLease :
    (acquireLease n fixture clientID ttlSeconds startupTimeout answers).trace.filter isStartKeepalive =
      ((acquireLease n fixture clientID ttlSeconds startupTimeout answers).result.toOption.map fun lease =>
        .startKeepalive n lease.id).toList := by
  rcases acquireLease_cases n fixture clientID ttlSeconds startupTimeout answers with
    ⟨e, e', -, heq⟩ | ⟨resp, e, -, -, heq⟩ | ⟨resp, final, -, -, -, heq⟩
  · rw [heq]
    rfl
  · rw [heq, filter_takeLeaseTrace]
    rfl
  · rw [heq, List.filter_append, filter_takeLeaseTrace]
    rfl

theorem acquireLease_refused (htake : answers.takeLease = .ok resp)
    (hdecision : decision resp answers.polls = some final) (hrefused : final.status ≠ succeeded) :
    (acquireLease n fixture clientID ttlSeconds startupTimeout answers).result =
      .error ("fixture " ++ quote fixture.name ++ ": lease " ++ statusName final.status ++ ": " ++
        String.intercalate "; " final.messages) := by
  have hresult := awaitLease_result n startupTimeout resp answers.polls
  rw [hdecision] at hresult
  cases hawait : (awaitLease n startupTimeout resp answers.polls).result with
  | error e =>
    rw [hawait] at hresult
    cases hresult
  | ok final' =>
    rw [hawait] at hresult
    cases hresult
    simp only [acquireLease, htake, hawait, ne_eq, hrefused, not_false_eq_true, if_true]

/-- What a call of `acquireLease` returns and starts. -/
structure Acquisition (n : ℕ) (fixture : ResolvedFixture) (answers : LeaseAnswers)
    (acquired : Logged (Except String ActiveLease)) : Prop where
  returned : (∃ lease, acquired.result = .ok lease) ↔ ∃ resp, answers.takeLease = .ok resp ∧
    (resp.status = succeeded ∨
      resp.status = pending ∧ ∃ final, DecidedBy answers.polls final ∧ final.status = succeeded)
  holds : ∀ lease, acquired.result = .ok lease → ∃ resp final, answers.takeLease = .ok resp ∧
    ReportedBy resp answers.polls final ∧ final.status = succeeded ∧
    lease.id = resp.leaseId ∧ lease.outputs = final.outputs
  kept : acquired.trace.filter isStartKeepalive =
    (acquired.result.toOption.map fun lease => .startKeepalive n lease.id).toList
  refused : ∀ resp final, answers.takeLease = .ok resp → ReportedBy resp answers.polls final →
    final.status = failed → acquired.result =
      .error ("fixture " ++ quote fixture.name ++ ": lease FAILED: " ++ String.intercalate "; " final.messages)

/-- Lease acquisition reports what the coordinator decided. -/
theorem acquireLease_reports (n : ℕ) (fixture : ResolvedFixture) (clientID : String) (ttlSeconds startupTimeout : Int64)
    (answers : LeaseAnswers) :
    Acquisition n fixture answers (acquireLease n fixture clientID ttlSeconds startupTimeout answers) := by
  constructor
  · constructor
    · rintro ⟨lease, hlease⟩
      obtain ⟨resp, final, htake, hdecision, hsucceeded, -⟩ := acquireLease_eq_ok_iff.1 hlease
      refine ⟨resp, htake, ?_⟩
      rcases decision_eq_some_iff.1 hdecision with ⟨-, rfl⟩ | ⟨hp, hdecided⟩
      · exact .inl hsucceeded
      · exact .inr ⟨hp, final, hdecided, hsucceeded⟩
    · rintro ⟨resp, htake, hsucceeded | ⟨hp, final, hdecided, hsucceeded⟩⟩
      · have hp : resp.status ≠ pending := by
          rw [hsucceeded]
          decide
        have hreported : ReportedBy resp answers.polls ⟨resp.status, resp.outputs, resp.messages⟩ := .inl ⟨hp, rfl⟩
        exact ⟨_, acquireLease_eq_ok_iff.2 ⟨resp, _, htake, decision_eq_some_iff.2 hreported, hsucceeded, rfl⟩⟩
      · have hreported : ReportedBy resp answers.polls final := .inr ⟨hp, hdecided⟩
        exact ⟨_, acquireLease_eq_ok_iff.2 ⟨resp, final, htake, decision_eq_some_iff.2 hreported, hsucceeded, rfl⟩⟩
  · intro lease hlease
    obtain ⟨resp, final, htake, hdecision, hsucceeded, rfl⟩ := acquireLease_eq_ok_iff.1 hlease
    exact ⟨resp, final, htake, decision_eq_some_iff.1 hdecision, hsucceeded, rfl, rfl⟩
  · exact filter_acquireLease
  · intro resp final htake hreported hfailed
    have hrefused : final.status ≠ succeeded := by
      rw [hfailed]
      decide
    have hname : ": lease " ++ statusName failed ++ ": " = ": lease FAILED: " := by decide
    rw [acquireLease_refused htake (decision_eq_some_iff.2 hreported) hrefused, hfailed, ← hname]
    simp only [String.append_assoc]

end RulesSystemtest.Runner
