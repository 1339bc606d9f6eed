import RulesSystemtest.Deployment.Protocol
import RulesSystemtest.Runner.Adequacy

/-! What a step of a deployment can do, said once. Every run of a deployment is a run of
its coordinator. -/

namespace RulesSystemtest.Deployment

open Library Runner

variable {H : Host} {D D' : State} {e : Event} {o : Obs} {h : History}

/-- The inputs of a runner that involve no message, and the events that they are. -/
inductive Alone (r : RunnerId) : Event → Input → Prop where
  | untaken (err : String) : Alone r (.fail r err) (.took (.error err))
  | untold (err : String) : Alone r (.fail r err) (.told (.error err))
  | expire : Alone r (.expire r) .expire
  | startTest (failure : Option String) : Alone r (.startTest r failure) (.start failure)
  | endTest (how : TestEnd) (took : ℕ) : Alone r (.endTest r how took) (.ended how took)
  | exit : Alone r (.exit r) .exit

inductive Step (H : Host) (D : State) : Event → Obs → State → Prop where
  | start {r : RunnerId} {J : Job} (hr : D.runners.lookup r = none) :
      Step H D (.start r J) (.started r) { D with runners := D.runners.insert r ⟨J, .start J, none⟩ }
  | send {r : RunnerId} {c : CallId} {m : Member} {i : Input} {rpc : Rpc} {t : List Runner.Event} {L : Local}
      (hm : D.runners.lookup r = some m) (hc : D.rpcs.lookup c = none) (hn : nextCall m.job m.locals = some (i, rpc))
      (hst : m.locals.step m.job i = some (t, L)) :
      Step H D (.send r c) (.did r t)
        { D with runners := D.runners.insert r ⟨m.job, L, some c⟩, rpcs := D.rpcs.insert c rpc }
  | receive {r : RunnerId} {c : CallId} {m : Member} {i : Input} {rpc : Rpc} {t : List Runner.Event} {L : Local}
      (hm : D.runners.lookup r = some m) (hcall : m.call = some c) (hc : D.rpcs.lookup c = some rpc)
      (hi : rpc.input? = some i) (hst : m.locals.step m.job i = some (t, L)) :
      Step H D (.receive r) (.did r t)
        { D with runners := D.runners.insert r ⟨m.job, L, none⟩, rpcs := D.rpcs.insert c .done }
  | act {e : Event} {r : RunnerId} {m : Member} {i : Input} {t : List Runner.Event} {L : Local}
      (hm : D.runners.lookup r = some m) (hi : Alone r e i) (hst : m.locals.step m.job i = some (t, L)) :
      Step H D e (.did r t) { D with runners := D.runners.insert r ⟨m.job, L, none⟩ }
  | crash {r : RunnerId} {m : Member} (hm : D.runners.lookup r = some m) :
      Step H D (.crash r) .silent { D with runners := D.runners.erase r }
  | beat {r : RunnerId} {n : ℕ} {c : CallId} {m : Member} {lease : ActiveLease}
      (hm : D.runners.lookup r = some m) (hc : D.rpcs.lookup c = none)
      (hl : m.locals.leases.find? (·.stop = n) = some lease) :
      Step H D (.beat r n c) .silent { D with rpcs := D.rpcs.insert c (.keepalive lease.id) }
  | arrive {c : CallId} {rpc : Rpc} {e : RulesSystemtest.Event} {o : RulesSystemtest.Obs} {w : RulesSystemtest.World}
      (hc : D.rpcs.lookup c = some rpc) (he : rpc.request? c = some e)
      (hst : RulesSystemtest.Step H D.coordinator e o w) :
      Step H D (.arrive c) (.moved e o) { D with coordinator := w, rpcs := D.rpcs.insert c (arrived o) }
  | lose {c : CallId} {rpc : Rpc} (hc : D.rpcs.lookup c = some rpc) (hf : rpc.inFlight = true) :
      Step H D (.lose c) .silent { D with rpcs := D.rpcs.insert c .done }
  | serve {e : RulesSystemtest.Event} {o : RulesSystemtest.Obs} {w : RulesSystemtest.World} (he : isInternal e = true)
      (hst : RulesSystemtest.Step H D.coordinator e o w) :
      Step H D (.serve e) (.moved e o) { D with coordinator := w, rpcs := endCall D.rpcs (ended? o) }

theorem act_eq_some {r : RunnerId} {m : Member} {i : Input} {call : Option CallId}
    (h : D.act r m i call = some (o, D')) : ∃ t L, m.locals.step m.job i = some (t, L) ∧ o = .did r t ∧
      D' = { D with runners := D.runners.insert r ⟨m.job, L, call⟩ } := by
  obtain ⟨⟨t, L⟩, hst, heq⟩ := Option.map_eq_some_iff.1 h
  cases heq
  exact ⟨t, L, hst, rfl, rfl⟩

theorem stepRunner_cases {r : RunnerId} {m : Member} (hm : D.runners.lookup r = some m) (hr : e.runner? = some r)
    (h : stepRunner D r m e = some (o, D')) : Step H D e o D' := by
  cases e with
  | send r' c =>
    obtain rfl := Option.some.inj hr
    simp only [stepRunner, stepSend] at h
    split at h
    · next hc hn =>
      obtain ⟨t, L, hst, rfl, rfl⟩ := act_eq_some h
      exact .send hm hc hn hst
    · cases h
  | receive r' =>
    obtain rfl := Option.some.inj hr
    simp only [stepRunner, stepReceive] at h
    split at h
    · next c hcall =>
      split at h
      · next i hi =>
        obtain ⟨rpc, hc, hi⟩ := Option.bind_eq_some_iff.1 hi
        obtain ⟨t, L, hst, rfl, rfl⟩ := act_eq_some h
        exact .receive hm hcall hc hi hst
      · cases h
    · cases h
  | fail r' err =>
    obtain rfl := Option.some.inj hr
    obtain ⟨i, hi, hact⟩ := Option.bind_eq_some_iff.1 h
    obtain ⟨t, L, hst, rfl, rfl⟩ := act_eq_some hact
    refine .act hm ?_ hst
    unfold failure? at hi
    split at hi <;> cases hi
    · exact .untaken err
    · exact .untold err
  | expire r' | startTest r' | endTest r' | exit r' =>
    obtain rfl := Option.some.inj hr
    obtain ⟨t, L, hst, rfl, rfl⟩ := act_eq_some h
    exact .act hm (by constructor) hst
  | crash r' =>
    obtain rfl := Option.some.inj hr
    cases h
    exact .crash hm
  | beat r' n c =>
    obtain rfl := Option.some.inj hr
    simp only [stepRunner, stepBeat] at h
    split at h
    · next hc hl =>
      cases h
      exact .beat hm hc hl
    · cases h
  | start | arrive | lose | serve => cases hr

theorem step_cases (h : step H D e = some (o, D')) : Step H D e o D' := by
  cases e with
  | start r J =>
    simp only [step] at h
    split at h
    · next hr =>
      cases h
      exact .start hr
    · cases h
  | arrive c =>
    simp only [step, stepArrive] at h
    split at h
    · next e he =>
      obtain ⟨rpc, hc, he⟩ := Option.bind_eq_some_iff.1 he
      obtain ⟨⟨o, w⟩, hst, heq⟩ := Option.map_eq_some_iff.1 h
      cases heq
      exact .arrive hc he (RulesSystemtest.step_cases hst)
    · cases h
  | lose c =>
    simp only [step, stepLose] at h
    split at h
    · next rpc hc =>
      split at h
      · next hf =>
        cases h
        exact .lose hc hf
      · cases h
    · cases h
  | serve e =>
    simp only [step, stepServe] at h
    split at h
    · next he =>
      obtain ⟨⟨o, w⟩, hst, heq⟩ := Option.map_eq_some_iff.1 h
      cases heq
      exact .serve he (RulesSystemtest.step_cases hst)
    · cases h
  | _ r =>
    -- the runner `r` moves
    simp only [step, Event.runner?] at h
    split at h
    · next m hm => exact stepRunner_cases hm rfl h
    · cases h

/-! ### The run of the coordinator -/

/-- The step of the coordinator in a step of the deployment. -/
def Moment.served? (t : Moment) : Option RulesSystemtest.Moment :=
  match t.obs with
  | .moved e o => some ⟨t.pre.coordinator, e, o, t.post.coordinator⟩
  | _ => none

/-- What the coordinator did in a run of the deployment. -/
def served (h : History) : RulesSystemtest.History := h.filterMap Moment.served?

theorem served_moved {e : RulesSystemtest.Event} {o : RulesSystemtest.Obs} {ev : Event} :
    served (⟨D, ev, .moved e o, D'⟩ :: h) = ⟨D.coordinator, e, o, D'.coordinator⟩ :: served h := rfl

theorem Runs.coordinator (hr : Runs H h D) : RulesSystemtest.Runs H (served h) D.coordinator := by
  induction hr with
  | init hD =>
    obtain ⟨files, rfl⟩ := hD
    exact runs_start files
  | step hr hst ih =>
    cases step_cases hst with
    | arrive _ _ hmoved => exact .step ih (step_of_step hmoved)
    | serve _ hmoved => exact .step ih (step_of_step hmoved)
    | _ => exact ih

theorem served_hereditary {A : RulesSystemtest.History → Prop} (hA : Hereditary A) :
    Hereditary fun h : History => A (served h) := by
  intro t h ht
  unfold served at ht
  rw [List.filterMap_cons] at ht
  split at ht
  · exact ht
  · exact hA _ _ ht

/-! ### A sample deployment -/

def sampleJob (implId clientID : String) : Job where
  setup := { sampleSetup [⟨"cache", "redis"⟩] with fixtures := [⟨"redis", sampleDesc implId⟩], clientID := clientID }
  unmarshalPorts := unmarshal
  range _ := sampleRange
  environ := []
  sink := ⟨"", fun _ => .ok [], fun _ _ => .ok ()⟩

/-- The runner `r` leases its one fixture by the call `c`, and starts its test. -/
def sampleLeased (r : RunnerId) (c : CallId) (J : Job) (provision : List RulesSystemtest.Event) : List Event :=
  [.start r J, .send r c, .arrive c] ++ provision.map .serve ++ [.receive r, .startTest r none]

def sampleTest (r : RunnerId) (c : CallId) (implId clientID lease port : String) : List Event :=
  sampleLeased r c (sampleJob implId clientID) (sampleTake c implId clientID lease port).tail

/-- Its test ends, and it gives the lease back by the call `c`. -/
def sampleEnd (r : RunnerId) (c : CallId) : List Event :=
  [.endTest r (.exited 0) 7, .send r c, .exit r, .arrive c]

/-- A job whose fixture two tests may use at once. -/
def sampleSharedJob (clientID : String) : Job :=
  { sampleJob "redis" clientID with
    setup := { (sampleJob "redis" clientID).setup with
      fixtures := [⟨"redis", { sampleDesc "redis" with sharing := some ⟨some .unrestricted, 2⟩ }⟩] } }

/-- Two runners whose tests run at once on one instance. -/
def sampleSharing : List Event :=
  sampleLeased 0 0 (sampleSharedJob "alice") (sampleTake 0 "redis" "alice" "l0" "6379").tail ++
    sampleLeased 1 1 (sampleSharedJob "bob") [.reuse 1 ⟨"l1"⟩]

def sampleRun (es : List Event) : History × State :=
  (deployment sampleHost).replay ([], .start sampleFiles) es

theorem sampleRun_runs (es : List Event) : Runs sampleHost (sampleRun es).1 (sampleRun es).2 :=
  Machine.Run.replay (.init (M := deployment sampleHost) (Exists.intro sampleFiles rfl)) es

end RulesSystemtest.Deployment
