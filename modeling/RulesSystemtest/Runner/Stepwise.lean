import RulesSystemtest.Library.Machine
import RulesSystemtest.Runner.Run

/-! The runner step by step. `execute` asks for all its answers at once; here it takes
one step for each message that it sends or gets, so that the steps of many runners and
of the coordinator can be interleaved. The two agree: what a run of the steps returns
and does, but for the time it takes, is what `execute` returns and does on a host that
gives these answers, and the other way around. -/

namespace RulesSystemtest.Runner

open Library

/-! ### States and steps -/

/-- What is fixed once the setup is done. The outputs of a lease are ranged over once,
in an order of their own. -/
structure Job where
  setup : Setup
  unmarshalPorts : Bytes → Except String PortsSchema
  range : ℕ → OutputsRange
  environ : List Bytes
  sink : ReportSink

/-- Where `execute` stands. A fixture that is being leased comes before the ones that
are still to do. -/
inductive Stage where
  | leasing (todo : List ResolvedFixture)
  | taking (fx : ResolvedFixture) (todo : List ResolvedFixture)
  | polling (fx : ResolvedFixture) (todo : List ResolvedFixture) (leaseID : String)
  | asking (fx : ResolvedFixture) (todo : List ResolvedFixture) (leaseID : String)
  | testing
  | releasing (result : Int × Option String)
  | returned (result : Int × Option String)

/-- The variables of `execute`. Its leases are the ones that it did not release yet. -/
structure Local where
  stage : Stage
  leases : List ActiveLease
  injectedEnv : Env

/-- What makes the runner move: its own next action, or a message or an end that it
waits for. -/
inductive Input where
  | call
  | took (reply : Except String TakeLeaseResponse)
  | tick
  | told (reply : Except String StatusResponse)
  | expire
  | start (failure : Option String)
  | ended (how : TestEnd) (took : ℕ)
  | release
  | exit

def Local.start (J : Job) : Local := ⟨.leasing J.setup.fixtures, [], ∅⟩

/-- The next fixture to be leased. -/
def Local.next (L : Local) : ℕ := L.leases.length

/-- `execute` returns an error, but for the releases. -/
def Local.fail (L : Local) (err : String) : Local := { L with stage := .releasing (0, some err) }

def takeLeaseRequest (J : Job) (fx : ResolvedFixture) : TakeLeaseRequest :=
  ⟨some fx.description, J.setup.clientID, J.setup.clientID, J.setup.cfg.leaseTTLSeconds, 1⟩

/-- A lease that is decided: it is an error, or it is kept alive and its ports are
parsed. -/
def settle (J : Job) (L : Local) (fx : ResolvedFixture) (todo : List ResolvedFixture) (leaseID : String)
    (final : StatusResponse) : List Event × Local :=
  if final.status ≠ succeeded then
    ([], L.fail ("fixture " ++ quote fx.name ++ ": lease " ++ statusName final.status ++ ": " ++
      String.intercalate "; " final.messages))
  else
    let held : Local := { L with leases := L.leases ++ [⟨leaseID, final.outputs, L.next⟩] }
    match portEnvFromOutputs J.unmarshalPorts fx.name ((J.range L.next).list final.outputs) with
    | .error e => ([.startKeepalive L.next leaseID], held.fail e)
    | .ok portEnv =>
      ([.startKeepalive L.next leaseID, .portsParsed L.next portEnv],
        { held with stage := .leasing todo, injectedEnv := portEnv ∪ L.injectedEnv })

def stepTook (J : Job) (L : Local) (fx : ResolvedFixture) (todo : List ResolvedFixture) :
    Except String TakeLeaseResponse → List Event × Local
  | .error e => ([], L.fail ("fixture " ++ quote fx.name ++ ": TakeLease: " ++ e))
  | .ok resp =>
    if resp.status = pending then
      ([.takeLeaseReply L.next resp], { L with stage := .polling fx todo resp.leaseId })
    else
      let settled := settle J L fx todo resp.leaseId ⟨resp.status, resp.outputs, resp.messages⟩
      (.takeLeaseReply L.next resp :: settled.1, settled.2)

def waitingError (fx : ResolvedFixture) (e : String) : String :=
  "fixture " ++ quote fx.name ++ ": waiting for lease: " ++ e

def stepTold (J : Job) (L : Local) (fx : ResolvedFixture) (todo : List ResolvedFixture) (leaseID : String) :
    Except String StatusResponse → List Event × Local
  | .error e => ([], L.fail (waitingError fx ("Status: " ++ e)))
  | .ok resp =>
    if resp.status = succeeded ∨ resp.status = failed then
      let settled := settle J L fx todo leaseID resp
      (.statusReply L.next resp :: settled.1, settled.2)
    else ([.statusReply L.next resp], { L with stage := .polling fx todo leaseID })

def testError (J : Job) (e : String) : String := "running test binary " ++ J.setup.testBinaryPath ++ ": " ++ e

def stepStart (J : Job) (L : Local) : Option String → List Event × Local
  | some err => ([], L.fail (testError J err))
  | none =>
    ([.testStarted J.setup.testBinaryPath J.setup.cfg.test.args
        (mergeEnv J.environ [encodeEnv L.injectedEnv, encodeEnv J.setup.cfg.test.env])],
      { L with stage := .testing })

/-- The report is written while the leases are held. -/
def stepReport (J : Job) (L : Local) (how : TestEnd) (took : ℕ) (exitCode : Int) : List Event × Local :=
  let written := writeJUnitReport J.sink J.setup.cfg.systemtestLabel exitCode took
  (.testEnded how :: written.trace, { L with stage := .releasing (exitCode, none) })

def stepEnded (J : Job) (L : Local) (took : ℕ) : TestEnd → List Event × Local
  | .exited status => stepReport J L (.exited status) took status
  | .signaled => stepReport J L .signaled took (-1)
  | .lost err => ([.testEnded (.lost err)], L.fail (testError J err))

def stepRelease (L : Local) : Option (List Event × Local) :=
  match L.leases with
  | [] => none
  | lease :: leases => some ([.stopKeepalive lease.stop, .releaseLease lease], { L with leases := leases })

def stepExit (L : Local) (result : Int × Option String) : Option (List Event × Local) :=
  match L.leases with
  | [] => some ([], { L with stage := .returned result })
  | _ :: _ => none

def Local.step (J : Job) (L : Local) (i : Input) : Option (List Event × Local) :=
  match L.stage, i with
  | .leasing (fx :: todo), .call =>
    some ([.takeLease L.next (takeLeaseRequest J fx)], { L with stage := .taking fx todo })
  | .leasing [], .start failure => some (stepStart J L failure)
  | .taking fx todo, .took reply => some (stepTook J L fx todo reply)
  | .polling fx todo leaseID, .tick => some ([.status L.next leaseID], { L with stage := .asking fx todo leaseID })
  | .polling fx _ _, .expire => some ([], L.fail (waitingError fx "context deadline exceeded"))
  | .asking fx todo leaseID, .told reply => some (stepTold J L fx todo leaseID reply)
  | .testing, .ended how took => some (stepEnded J L took how)
  | .releasing _, .release => stepRelease L
  | .releasing result, .exit => stepExit L result
  | _, _ => none

/-- One runner, after its setup. -/
def runner (J : Job) : Machine Local Input (List Event) where
  init L := L = .start J
  step := Local.step J

/-! ### What a step can do -/

/-- The ways in which a decided lease goes on. -/
inductive Settled (J : Job) (L : Local) (fx : ResolvedFixture) (todo : List ResolvedFixture) (leaseID : String)
    (final : StatusResponse) : List Event → Local → Prop where
  | refused (hf : final.status ≠ succeeded) : Settled J L fx todo leaseID final []
      (L.fail ("fixture " ++ quote fx.name ++ ": lease " ++ statusName final.status ++ ": " ++
        String.intercalate "; " final.messages))
  | unparsed {e : String} (hs : final.status = succeeded)
      (hports : portEnvFromOutputs J.unmarshalPorts fx.name ((J.range L.next).list final.outputs) = .error e) :
      Settled J L fx todo leaseID final [.startKeepalive L.next leaseID]
        ⟨.releasing (0, some e), L.leases ++ [⟨leaseID, final.outputs, L.next⟩], L.injectedEnv⟩
  | leased {portEnv : Env} (hs : final.status = succeeded)
      (hports : portEnvFromOutputs J.unmarshalPorts fx.name ((J.range L.next).list final.outputs) = .ok portEnv) :
      Settled J L fx todo leaseID final [.startKeepalive L.next leaseID, .portsParsed L.next portEnv]
        ⟨.leasing todo, L.leases ++ [⟨leaseID, final.outputs, L.next⟩], portEnv ∪ L.injectedEnv⟩

inductive Moves (J : Job) (L : Local) : Input → List Event → Local → Prop where
  | call {fx : ResolvedFixture} {todo : List ResolvedFixture} (hs : L.stage = .leasing (fx :: todo)) :
      Moves J L .call [.takeLease L.next (takeLeaseRequest J fx)] { L with stage := .taking fx todo }
  | untaken {fx : ResolvedFixture} {todo : List ResolvedFixture} {e : String}
      (hs : L.stage = .taking fx todo) :
      Moves J L (.took (.error e)) [] (L.fail ("fixture " ++ quote fx.name ++ ": TakeLease: " ++ e))
  | pending {fx : ResolvedFixture} {todo : List ResolvedFixture} {resp : TakeLeaseResponse}
      (hs : L.stage = .taking fx todo) (hp : resp.status = pending) :
      Moves J L (.took (.ok resp)) [.takeLeaseReply L.next resp] { L with stage := .polling fx todo resp.leaseId }
  | took {fx : ResolvedFixture} {todo : List ResolvedFixture} {resp : TakeLeaseResponse}
      {t : List Event} {L' : Local} (hs : L.stage = .taking fx todo) (hp : resp.status ≠ Runner.pending)
      (hsettled : Settled J L fx todo resp.leaseId ⟨resp.status, resp.outputs, resp.messages⟩ t L') :
      Moves J L (.took (.ok resp)) (.takeLeaseReply L.next resp :: t) L'
  | tick {fx : ResolvedFixture} {todo : List ResolvedFixture} {leaseID : String}
      (hs : L.stage = .polling fx todo leaseID) :
      Moves J L .tick [.status L.next leaseID] { L with stage := .asking fx todo leaseID }
  | expire {fx : ResolvedFixture} {todo : List ResolvedFixture} {leaseID : String}
      (hs : L.stage = .polling fx todo leaseID) :
      Moves J L .expire [] (L.fail (waitingError fx "context deadline exceeded"))
  | untold {fx : ResolvedFixture} {todo : List ResolvedFixture} {leaseID e : String}
      (hs : L.stage = .asking fx todo leaseID) :
      Moves J L (.told (.error e)) [] (L.fail (waitingError fx ("Status: " ++ e)))
  | undecided {fx : ResolvedFixture} {todo : List ResolvedFixture} {leaseID : String}
      {resp : StatusResponse} (hs : L.stage = .asking fx todo leaseID)
      (hu : ¬ (resp.status = succeeded ∨ resp.status = failed)) :
      Moves J L (.told (.ok resp)) [.statusReply L.next resp] { L with stage := .polling fx todo leaseID }
  | decided {fx : ResolvedFixture} {todo : List ResolvedFixture} {leaseID : String}
      {resp : StatusResponse} {t : List Event} {L' : Local} (hs : L.stage = .asking fx todo leaseID)
      (hd : resp.status = succeeded ∨ resp.status = failed) (hsettled : Settled J L fx todo leaseID resp t L') :
      Moves J L (.told (.ok resp)) (.statusReply L.next resp :: t) L'
  | notStarted {err : String} (hs : L.stage = .leasing []) :
      Moves J L (.start (some err)) [] (L.fail (testError J err))
  | started (hs : L.stage = .leasing []) : Moves J L (.start none) (stepStart J L none).1 { L with stage := .testing }
  | ended {how : TestEnd} {took : ℕ} {result : Int × Option String} {t : List Event} (hs : L.stage = .testing)
      (he : stepEnded J L took how = (t, { L with stage := .releasing result })) :
      Moves J L (.ended how took) t { L with stage := .releasing result }
  | release {lease : ActiveLease} {leases : List ActiveLease} {result : Int × Option String}
      (hs : L.stage = .releasing result) (hl : L.leases = lease :: leases) :
      Moves J L .release [.stopKeepalive lease.stop, .releaseLease lease] { L with leases := leases }
  | exit {result : Int × Option String} (hs : L.stage = .releasing result) (hl : L.leases = []) :
      Moves J L .exit [] { L with stage := .returned result }

variable {J : Job} {W : World} {S : Setup} {L L' : Local} {i : Input} {t : List Event} {fx : ResolvedFixture}
  {todo : List ResolvedFixture} {leaseID : String}

theorem settle_cases (J : Job) (L : Local) (fx : ResolvedFixture) (todo : List ResolvedFixture) (leaseID : String)
    (final : StatusResponse) :
    Settled J L fx todo leaseID final (settle J L fx todo leaseID final).1 (settle J L fx todo leaseID final).2 := by
  unfold settle
  by_cases hs : final.status = succeeded
  · rw [if_neg (not_not.2 hs)]
    cases hports : portEnvFromOutputs J.unmarshalPorts fx.name ((J.range L.next).list final.outputs) with
    | error e => exact .unparsed hs hports
    | ok portEnv => exact .leased hs hports
  · rw [if_pos hs]
    exact .refused hs

theorem stepTook_cases {reply : Except String TakeLeaseResponse} (hs : L.stage = .taking fx todo) :
    Moves J L (.took reply) (stepTook J L fx todo reply).1 (stepTook J L fx todo reply).2 := by
  cases reply with
  | error e => exact .untaken hs
  | ok resp =>
    by_cases hp : resp.status = pending
    · simp only [stepTook, hp, if_true]
      exact .pending hs hp
    · simp only [stepTook, hp, if_false]
      exact .took hs hp (settle_cases ..)

theorem stepTold_cases {reply : Except String StatusResponse} (hs : L.stage = .asking fx todo leaseID) :
    Moves J L (.told reply) (stepTold J L fx todo leaseID reply).1 (stepTold J L fx todo leaseID reply).2 := by
  cases reply with
  | error e => exact .untold hs
  | ok resp =>
    by_cases hd : resp.status = succeeded ∨ resp.status = failed
    · simp only [stepTold, hd, if_true]
      exact .decided hs hd (settle_cases ..)
    · simp only [stepTold, hd, if_false]
      exact .undecided hs hd

/-- The test was ended in some way, which is the result. -/
theorem stepEnded_eq (J : Job) (L : Local) (took : ℕ) (how : TestEnd) :
    ∃ result t, stepEnded J L took how = (t, { L with stage := .releasing result }) := by
  cases how <;> exact ⟨_, _, rfl⟩

theorem moves_of_step (h : L.step J i = some (t, L')) : Moves J L i t L' := by
  unfold Local.step at h
  split at h
  · next hs =>
    cases h
    exact .call hs
  · next failure hs =>
    cases failure <;> cases h
    · exact .started hs
    · exact .notStarted hs
  · next hs =>
    obtain ⟨rfl, rfl⟩ := Prod.mk.inj (Option.some.inj h)
    exact stepTook_cases hs
  · next hs =>
    cases h
    exact .tick hs
  · next hs =>
    cases h
    exact .expire hs
  · next hs =>
    obtain ⟨rfl, rfl⟩ := Prod.mk.inj (Option.some.inj h)
    exact stepTold_cases hs
  · next how took hs =>
    obtain ⟨result, t', he⟩ := stepEnded_eq J L took how
    obtain ⟨rfl, rfl⟩ := Prod.mk.inj (he.symm.trans (Option.some.inj h))
    exact .ended hs he
  · next hs =>
    unfold stepRelease at h
    split at h
    · cases h
    · next hl =>
      cases h
      exact .release hs hl
  · next hs =>
    unfold stepExit at h
    split at h
    · next hl =>
      cases h
      exact .exit hs hl
    · cases h
  · cases h

/-- The end of the test shows as such and in the report. -/
theorem mem_stepEnded {how : TestEnd} {took : ℕ} (he : stepEnded J L took how = (t, L')) {ev : Event} (hev : ev ∈ t) :
    (∃ how', ev = .testEnded how') ∨ ∃ path suite, ev = .report path suite := by
  have hreport : ∀ (how' : TestEnd) (exitCode : Int), ev ∈ (stepReport J L how' took exitCode).1 →
      (∃ how', ev = .testEnded how') ∨ ∃ path suite, ev = .report path suite := by
    intro how' exitCode h
    rcases List.mem_cons.1 h with h | h
    · exact .inl ⟨how', h⟩
    · exact .inr ⟨_, _, mem_writeJUnitReport h⟩
  obtain rfl : (stepEnded J L took how).1 = t := congrArg Prod.fst he
  cases how with
  | exited status => exact hreport _ _ hev
  | signaled => exact hreport _ _ hev
  | lost err => exact .inl ⟨_, List.mem_singleton.1 hev⟩

theorem takeLease_moves (h : Moves J L i t L') {n : ℕ} {req : TakeLeaseRequest} (ht : .takeLease n req ∈ t) :
    i = .call ∧ n = L.next ∧ ∃ fx todo, L.stage = .leasing (fx :: todo) ∧ L' = { L with stage := .taking fx todo } := by
  cases h with
  | call hs =>
    obtain ⟨rfl, -⟩ := Event.takeLease.inj (List.mem_singleton.1 ht)
    exact ⟨rfl, rfl, _, _, hs, rfl⟩
  | took _ _ hsettled | decided _ _ hsettled => cases hsettled <;> simp at ht
  | ended _ he =>
    rcases mem_stepEnded he ht with ⟨_, heq⟩ | ⟨_, _, heq⟩
    · cases heq
    · cases heq
  | started => cases List.mem_singleton.1 ht
  | _ => simp at ht

/-! ### What holds at every stage -/

/-- The fixtures that are not leased yet. -/
def Stage.remaining : Stage → List ResolvedFixture
  | .leasing todo => todo
  | .taking fx todo | .polling fx todo _ | .asking fx todo _ => fx :: todo
  | .testing | .releasing _ | .returned _ => []

/-- No lease is given back yet. -/
def Stage.holding : Stage → Bool
  | .releasing _ | .returned _ => false
  | _ => true

/-- The coordinator still provisions. -/
def Stage.polls : Stage → Bool
  | .polling _ _ _ | .asking _ _ _ => true
  | _ => false

/-- Leases are numbered by the fixtures that they are for, in their order. -/
structure Local.Sound (J : Job) (L : Local) : Prop where
  nodup : (L.leases.map (·.stop)).Nodup
  numbered : L.stage.holding = true → L.leases.map (·.stop) = List.range L.leases.length
  planned : L.stage.holding = true → J.setup.fixtures.drop L.leases.length = L.stage.remaining
  known : ∀ l ∈ L.leases, l.stop < J.setup.fixtures.length

theorem sound_start (J : Job) : (Local.start J).Sound J := by
  constructor <;> simp [Local.start, Stage.remaining]

theorem Local.Sound.fail (h : L.Sound J) (e : String) : (L.fail e).Sound J :=
  ⟨h.nodup, nofun, nofun, h.known⟩

/-- A new lease is for the next fixture. -/
theorem Local.Sound.leased (h : L.Sound J) (hs : L.stage.remaining = fx :: todo) (hh : L.stage.holding = true)
    (outputs : BTreeMap Value) (env : Env) :
    Local.Sound J ⟨.leasing todo, L.leases ++ [⟨leaseID, outputs, L.next⟩], env⟩ := by
  have hdrop := h.planned hh
  rw [hs] at hdrop
  have hlt : L.leases.length < J.setup.fixtures.length := by
    rw [← not_le, ← List.drop_eq_nil_iff, hdrop]
    exact nofun
  have hnum : (L.leases ++ [ActiveLease.mk leaseID outputs L.next]).map (·.stop) = List.range (L.leases.length + 1) := by
    rw [List.map_append, h.numbered hh, List.range_succ]
    rfl
  constructor
  · rw [hnum]
    exact List.nodup_range
  · intro _
    simp only [hnum, List.length_append, List.length_singleton]
  · intro _
    simp only [List.length_append, List.length_singleton, Stage.remaining]
    rw [← List.drop_drop, hdrop]
    rfl
  · intro l hl
    have hmem : l.stop ∈ List.range (L.leases.length + 1) := hnum ▸ List.mem_map_of_mem hl
    have := List.mem_range.1 hmem
    omega

theorem Local.Sound.enter (h : L.Sound J) {stage : Stage} (hh : stage.holding = true → L.stage.holding = true)
    (ht : stage.holding = true → stage.remaining = L.stage.remaining) : Local.Sound J { L with stage := stage } :=
  ⟨h.nodup, fun hs => h.numbered (hh hs), fun hs => (h.planned (hh hs)).trans (ht hs).symm, h.known⟩

theorem sound_settled {final : StatusResponse} (h : L.Sound J) (hs : L.stage.remaining = fx :: todo)
    (hh : L.stage.holding = true) (hsettled : Settled J L fx todo leaseID final t L') : L'.Sound J := by
  cases hsettled with
  | refused _ => exact h.fail _
  | unparsed _ _ => exact (h.leased hs hh _ L.injectedEnv).fail _
  | leased _ _ => exact h.leased hs hh _ _

theorem sound_moves (h : L.Sound J) (hm : Moves J L i t L') : L'.Sound J := by
  cases hm with
  | call hs | pending hs | tick hs | undecided hs =>
    refine h.enter ?_ ?_ <;> rw [hs] <;> exact fun _ => rfl
  | untaken | expire | untold | notStarted => exact h.fail _
  | took hs _ hsettled | decided hs _ hsettled =>
    refine sound_settled h ?_ ?_ hsettled <;> rw [hs] <;> rfl
  | started hs =>
    refine h.enter ?_ ?_ <;> rw [hs] <;> exact fun _ => rfl
  | ended | exit => exact h.enter nofun nofun
  | @release lease leases result hs hl =>
    obtain ⟨hnodup, -, -, hknown⟩ := h
    rw [hl] at hnodup hknown
    refine ⟨(List.nodup_cons.1 hnodup).2, ?_, ?_, fun l hmem => hknown l (List.mem_cons_of_mem _ hmem)⟩
    · rw [hs]
      exact nofun
    · rw [hs]
      exact nofun

theorem sound_run {h : List (Transition Local Input (List Event))} (hr : (runner J).Run h L) : L.Sound J := by
  refine Machine.Run.invariant hereditary_true (I := fun _ L => L.Sound J) ?_ ?_ hr trivial
  · rintro _ rfl
    exact sound_start J
  · exact fun h L i t L' _ _ hL hst => sound_moves hL (moves_of_step hst)

theorem polls_settled {final : StatusResponse} (h : Settled J L fx todo leaseID final t L') :
    L'.stage.polls = false := by
  cases h <;> rfl

/-- Only a lease that is pending is polled for. -/
theorem polls_moves (h : L.stage.polls = false) (hm : Moves J L i t L')
    (hi : ∀ resp, i = .took (.ok resp) → resp.status ≠ pending) : L'.stage.polls = false := by
  cases hm with
  | pending _ hp => exact absurd hp (hi _ rfl)
  | took _ _ hsettled | decided _ _ hsettled => exact polls_settled hsettled
  | tick hs | expire hs | untold hs | undecided hs =>
    rw [hs] at h
    cases h
  | release => exact h
  | _ => rfl

/-- Only a lease that is polled for is asked about. -/
theorem status_moves (h : Moves J L i t L') {n : ℕ} {leaseID : String} (ht : .status n leaseID ∈ t) :
    L.stage.polls = true := by
  cases h with
  | tick hs =>
    rw [hs]
    rfl
  | took _ _ hsettled | decided _ _ hsettled => cases hsettled <;> simp at ht
  | ended _ he =>
    rcases mem_stepEnded he ht with ⟨_, heq⟩ | ⟨_, _, heq⟩
    · cases heq
    · cases heq
  | started => cases List.mem_singleton.1 ht
  | _ => simp at ht

/-! ### What a step does to the leases -/

theorem leases_settled {final : StatusResponse} (h : Settled J L fx todo leaseID final t L')
    (hs : final.status = succeeded) : L'.leases = L.leases ++ [⟨leaseID, final.outputs, L.next⟩] := by
  cases h with
  | refused hf => exact absurd hs hf
  | unparsed => rfl
  | leased => rfl

/-- A lease that the reply to `TakeLease` grants is held from then on. -/
theorem leases_took {resp : TakeLeaseResponse} (h : Moves J L (.took (.ok resp)) t L') (hs : resp.status = succeeded) :
    (∃ fx todo, L.stage = .taking fx todo) ∧ L'.leases = L.leases ++ [⟨resp.leaseId, resp.outputs, L.next⟩] := by
  cases h with
  | pending _ hp =>
    rw [hs] at hp
    exact absurd hp (by decide)
  | took hstage _ hsettled => exact ⟨⟨_, _, hstage⟩, leases_settled hsettled hs⟩

/-- The list of leases changes with a granted lease, with one that was polled for, and
with a release. -/
theorem leases_moves (h : Moves J L i t L') (hp : L.stage.polls = false) (hi : ∀ resp, i ≠ .took (.ok resp)) :
    i ≠ .release ∧ L'.leases = L.leases ∨ i = .release ∧ ∃ lease, L.leases = lease :: L'.leases := by
  cases h with
  | release _ hl => exact .inr ⟨rfl, _, hl⟩
  | pending | took => exact absurd rfl (hi _)
  | decided hs | undecided hs =>
    rw [hs] at hp
    cases hp
  | _ => exact .inl ⟨nofun, rfl⟩

end RulesSystemtest.Runner
