import RulesSystemtest.Runner.Stepwise

/-! `execute` without its clock, cut where the runner waits: after a call of `TakeLease`,
after the polling, and after the loop over the fixtures. -/

namespace RulesSystemtest.Runner

open Library

variable {J : Job} {W : World} {S : Setup} {L L' : Local} {i : Input} {t u : List Event} {fx : ResolvedFixture}
  {todo : List ResolvedFixture} {leaseID : String} {n : ℕ} {polls : List PollAnswer}

/-! ### Traces without times -/

def isElapse : Event → Bool
  | .elapse _ => true
  | _ => false

def untimed (t : List Event) : List Event := t.filter fun e => !isElapse e

theorem untimed_append : untimed (t ++ u) = untimed t ++ untimed u := List.filter_append ..

theorem untimed_eq_self (h : ∀ e ∈ t, isElapse e = false) : untimed t = t :=
  List.filter_eq_self.2 fun e he => by simp [h e he]

/-- The events of a run, in their order. -/
def eventsOf : List (Transition Local Input (List Event)) → List Event
  | [] => []
  | tr :: h => eventsOf h ++ tr.obs

/-! ### The polling, without its clock -/

/-- What follows a call of `Status`. -/
def heard (n : ℕ) (answer : PollAnswer) (rest : Logged (Except String StatusResponse)) :
    Logged (Except String StatusResponse) :=
  match answer.reply with
  | .error e => ⟨.error ("Status: " ++ e), []⟩
  | .ok resp =>
    if resp.status = succeeded ∨ resp.status = failed then ⟨.ok resp, [.statusReply n resp]⟩
    else ⟨rest.result, .statusReply n resp :: rest.trace⟩

def polled (n : ℕ) (leaseID : String) : List PollAnswer → Logged (Except String StatusResponse)
  | [] => ⟨.error "context deadline exceeded", []⟩
  | answer :: answers =>
    let asked := heard n answer (polled n leaseID answers)
    ⟨asked.result, .status n leaseID :: asked.trace⟩

theorem pollUntilDone_polled (leaseID : String) (timeout last now : ℕ) (polls : List PollAnswer) :
    (pollUntilDone n leaseID timeout last now polls).result = (polled n leaseID polls).result ∧
      untimed (pollUntilDone n leaseID timeout last now polls).trace = (polled n leaseID polls).trace := by
  induction polls generalizing last now with
  | nil => exact ⟨rfl, rfl⟩
  | cons answer polls ih =>
    unfold pollUntilDone polled heard
    cases answer.reply with
    | error e => exact ⟨rfl, rfl⟩
    | ok resp =>
      dsimp only
      split
      · exact ⟨rfl, rfl⟩
      · refine ⟨(ih _ _).1, ?_⟩
        rw [← (ih _ _).2, untimed_append]
        rfl

/-! ### The loop over the fixtures, from any stage on -/

/-- What is left of the loop when a lease is decided. -/
def leaseRest (W : World) (J : Job) (L : Local) (fx : ResolvedFixture) (todo : List ResolvedFixture) (leaseID : String) :
    Except String StatusResponse → Leasing
  | .error e => ⟨L.leases, .error (waitingError fx e), []⟩
  | .ok final =>
    if final.status ≠ succeeded then
      ⟨L.leases, .error ("fixture " ++ quote fx.name ++ ": lease " ++ statusName final.status ++ ": " ++
        String.intercalate "; " final.messages), []⟩
    else
      let leases := L.leases ++ [⟨leaseID, final.outputs, L.next⟩]
      match portEnvFromOutputs J.unmarshalPorts fx.name ((J.range L.next).list final.outputs) with
      | .error e => ⟨leases, .error e, [.startKeepalive L.next leaseID]⟩
      | .ok portEnv =>
        let rest := leaseFixtures W J.setup (L.next + 1) todo leases (portEnv ∪ L.injectedEnv)
        ⟨rest.leases, rest.result, .startKeepalive L.next leaseID :: .portsParsed L.next portEnv :: rest.trace⟩

/-- The rest of the loop after some waiting. -/
def leaseAwaited (W : World) (J : Job) (L : Local) (fx : ResolvedFixture) (todo : List ResolvedFixture)
    (leaseID : String) (awaited : Logged (Except String StatusResponse)) : Leasing :=
  let rest := leaseRest W J L fx todo leaseID awaited.result
  ⟨rest.leases, rest.result, awaited.trace ++ rest.trace⟩

/-- The rest of the loop after a call of `TakeLease`. -/
def leaseTaken (W : World) (J : Job) (L : Local) (fx : ResolvedFixture) (todo : List ResolvedFixture) : Leasing :=
  match (W.lease L.next).takeLease with
  | .error e => ⟨L.leases, .error ("fixture " ++ quote fx.name ++ ": TakeLease: " ++ e), []⟩
  | .ok resp =>
    let rest := leaseAwaited W J L fx todo resp.leaseId
      (awaitLease L.next (startupTimeout J.setup) resp (W.lease L.next).polls)
    ⟨rest.leases, rest.result, .takeLeaseReply L.next resp :: rest.trace⟩

/-- The job of a host whose setup is done. -/
def jobOf (W : World) (S : Setup) : Job := ⟨S, W.unmarshalPorts, fun n => (W.lease n).range, W.environ, W.sink⟩

theorem leaseFixtures_cons (hW : jobOf W J.setup = J) (L : Local) (fx : ResolvedFixture) (todo : List ResolvedFixture) :
    leaseFixtures W J.setup L.next (fx :: todo) L.leases L.injectedEnv =
      ⟨(leaseTaken W J L fx todo).leases, (leaseTaken W J L fx todo).result,
        takeLeaseCall L.next fx J.setup.clientID J.setup.cfg.leaseTTLSeconds (W.lease L.next) ++
          (leaseTaken W J L fx todo).trace⟩ := by
  have hunmarshal : J.unmarshalPorts = W.unmarshalPorts := by rw [← hW]; rfl
  have hrange : J.range L.next = (W.lease L.next).range := by rw [← hW]; rfl
  unfold leaseFixtures leaseTaken
  dsimp only
  unfold acquireLease
  dsimp only
  cases htake : (W.lease L.next).takeLease with
  | error e => simp [takeLeaseCall]
  | ok resp =>
    simp only [leaseAwaited]
    cases hawait : (awaitLease L.next (startupTimeout J.setup) resp (W.lease L.next).polls).result with
    | error e => simp [leaseRest, takeLeaseCall, waitingError]
    | ok final =>
      by_cases hs : final.status = succeeded
      · simp only [leaseRest, hs, ne_eq, not_true_eq_false, if_false, hunmarshal, hrange]
        cases hports : portEnvFromOutputs W.unmarshalPorts fx.name ((W.lease L.next).range.list final.outputs) with
        | error e => simp [takeLeaseCall]
        | ok portEnv => simp [takeLeaseCall]
      · simp [leaseRest, hs, takeLeaseCall]

/-! ### What follows the loop -/

theorem untimed_releaseAll (W : World) (leases : List ActiveLease) :
    untimed (releaseAll W leases) = leases.flatMap fun l => [.stopKeepalive l.stop, .releaseLease l] := by
  induction leases with
  | nil => rfl
  | cons l leases ih =>
    rw [List.flatMap_cons, ← ih, releaseAll, List.flatMap_cons, untimed_append]
    rfl

/-- What follows the loop over the fixtures. -/
def finish (W : World) (J : Job) (l : Leasing) : Logged (Int × Option String) :=
  let tested := runTest W J.setup l.result
  ⟨tested.result, untimed (l.trace ++ tested.trace ++ releaseAll W l.leases)⟩

def Stage.result? : Stage → Option (Int × Option String)
  | .releasing result | .returned result => some result
  | _ => none

/-- A test that is started takes two steps. -/
theorem runTest_ran (hW : jobOf W J.setup = J) {took : ℕ} {how : TestEnd} (htest : W.test = .ran took how) (L : Local) :
    some (runTest W J.setup (.ok L.injectedEnv)).result = (stepEnded J L took how).2.stage.result? ∧
      untimed (runTest W J.setup (.ok L.injectedEnv)).trace = (stepStart J L none).1 ++ (stepEnded J L took how).1 := by
  have henviron : J.environ = W.environ := by rw [← hW]; rfl
  have hsink : J.sink = W.sink := by rw [← hW]; rfl
  have hreport : ∀ code duration,
      untimed (writeJUnitReport W.sink J.setup.cfg.systemtestLabel code duration).trace =
        (writeJUnitReport W.sink J.setup.cfg.systemtestLabel code duration).trace := by
    intro code duration
    refine untimed_eq_self fun e he => ?_
    rw [mem_writeJUnitReport he]
    rfl
  unfold runTest runTestBinary
  rw [htest]
  cases how with
  | lost err => exact ⟨rfl, by simp [stepStart, stepEnded, henviron, untimed, isElapse]⟩
  | exited status =>
    refine ⟨rfl, ?_⟩
    simp only [untimed_append, hreport, stepStart, stepEnded, stepReport, henviron, hsink]
    rfl
  | signaled =>
    refine ⟨rfl, ?_⟩
    simp only [untimed_append, hreport, stepStart, stepEnded, stepReport, henviron, hsink]
    rfl

/-- A runner that returned has released its leases. -/
theorem leases_of_returned {h : List (Transition Local Input (List Event))} (hr : (runner J).Run h L)
    {result : Int × Option String} (hs : L.stage = .returned result) : L.leases = [] := by
  cases hr with
  | init hi =>
    obtain rfl : L = .start J := hi
    cases hs
  | step hr hst =>
    cases moves_of_step hst with
    | exit _ hl => exact hl
    | release hr _ => exact absurd (hr.symm.trans hs) nofun
    | took _ _ hsettled => cases hsettled <;> cases hs
    | decided _ _ hsettled => cases hsettled <;> cases hs
    | _ => cases hs

end RulesSystemtest.Runner
