import RulesSystemtest.Deployment.Accounting
import RulesSystemtest.Library.Weight

/-! A deployment never gets stuck. What is left to do has a weight, which grows only when
a runner starts and which every step of a test, of its calls and of their handlers takes
from. And a runner that has not returned always has such a step before it, its own or one
of its call, so no test waits for another one. -/

namespace RulesSystemtest.Deployment

open Library Runner

variable {H : Host} {D D' : State} {e : Event} {o : Obs} {h : History}

/-! ### What is left to do -/

/-- The stretches of a `take_lease` future that are to come. -/
def phaseWork : Phase → ℕ
  | .fingerprinted => 6
  | .provisioning => 5
  | .connecting _ _ _ => 4
  | .connected _ => 3
  | .described _ => 2
  | .created _ _ => 1

def callWork : Call → ℕ
  | .running _ p => phaseWork p
  | .finished => 0

/-- A call of `TakeLease` has its handler and its reply before it. -/
def Rpc.work : Rpc → ℕ
  | .takeLease _ => 8
  | .status _ => 2
  | .serving | .took _ | .told _ | .releaseLease _ => 1
  | .keepalive _ | .done => 0

/-- For each fixture there is a call to make and, in the end, a lease to release. -/
def stageWork : Stage → ℕ
  | .leasing todo => 3 + 11 * todo.length
  | .taking _ todo | .polling _ todo _ | .asking _ todo _ => 5 + 11 * todo.length
  | .testing => 2
  | .releasing _ => 1
  | .returned _ => 0

def localWork (L : Local) : ℕ := stageWork L.stage + 2 * L.leases.length

def State.work (D : State) : ℕ :=
  weight callWork D.coordinator.calls + weight Rpc.work D.rpcs + weight (fun m => localWork m.locals) D.runners

/-! ### One runner -/

/-- What a runner has less to do after a step. It has its calls in flight instead. -/
def spends : Input → ℕ
  | .call => 9
  | .release => 2
  | .took (.ok _) => 0
  | _ => 1

theorem localWork_settled {J : Job} {L L' : Local} {fx : ResolvedFixture} {todo : List ResolvedFixture}
    {leaseID : String} {final : StatusResponse} {t : List Runner.Event}
    (h : Settled J L fx todo leaseID final t L') : localWork L' ≤ 5 + 11 * todo.length + 2 * L.leases.length := by
  cases h with
  | refused _ =>
    simp only [localWork, Local.fail, stageWork]
    omega
  | unparsed _ _ =>
    simp only [localWork, stageWork, List.length_append, List.length_singleton]
    omega
  | leased _ _ =>
    simp only [localWork, stageWork, List.length_append, List.length_singleton]
    omega

/-- A runner that polls for nothing has less to do after each step. -/
theorem localWork_moves {J : Job} {L L' : Local} {i : Input} {t : List Runner.Event} (hm : Moves J L i t L')
    (hpolls : L.stage.polls = false) (hi : ∀ resp, i = .took (.ok resp) → resp.status ≠ pending) :
    localWork L' + spends i ≤ localWork L := by
  cases hm with
  | pending _ hp => exact absurd hp (hi _ rfl)
  | tick hs | expire hs | untold hs | undecided hs | decided hs =>
    rw [hs] at hpolls
    cases hpolls
  | took hs _ hsettled =>
    have hwork := localWork_settled hsettled
    simp only [localWork, hs, stageWork, spends] at hwork ⊢
    omega
  | call hs | untaken hs | notStarted hs | started hs | ended hs | exit hs =>
    simp only [localWork, hs, Local.fail, stageWork, spends, List.length_cons]
    omega
  | release hs hl =>
    simp only [localWork, hs, hl, stageWork, spends, List.length_cons]
    omega

/-- A call costs less than its runner gives for it. -/
theorem work_nextCall {J : Job} {L : Local} {i : Input} {rpc : Rpc} (h : nextCall J L = some (i, rpc))
    (hpolls : L.stage.polls = false) : rpc.work + 1 ≤ spends i := by
  unfold nextCall at h
  split at h
  · cases h
    exact le_refl 9
  · next hs =>
    rw [hs] at hpolls
    cases hpolls
  · obtain ⟨lease, -, heq⟩ := Option.map_eq_some_iff.1 h
    cases heq
    exact le_refl 2
  · cases h

/-! ### The coordinator -/

/-- A lease is kept alive, a plugin is dialled in vain, or something happens outside. -/
def isIdle (w : RulesSystemtest.World) (e : RulesSystemtest.Event) (w' : RulesSystemtest.World) : Bool :=
  match e with
  | .keepalive _ | .exit _ _ | .write _ _ => true
  | .tryConnect c _ => w'.calls.lookup c = w.calls.lookup c
  | _ => false

/-- What a step of the coordinator takes off its calls. -/
inductive CallsSpend (w : RulesSystemtest.World) (e : RulesSystemtest.Event) (o : RulesSystemtest.Obs)
    (w' : RulesSystemtest.World) : Prop where
  | ended {c : CallId} {rpc : Rpc} {a : Admitted} {p : Phase} (he : ended? o = some (c, rpc)) (hrpc : rpc.work ≤ 1)
      (hc : w.calls.lookup c = some (.running a p)) (hw : w'.calls = w.calls.insert c .finished)
  | going {c : CallId} {a : Admitted} {p q : Phase} (he : ended? o = none)
      (hc : w.calls.lookup c = some (.running a p)) (hw : w'.calls = w.calls.insert c (.running a q))
      (hq : phaseWork q < phaseWork p)
  | idle (hi : isIdle w e w' = true) (he : ended? o = none) (hw : w'.calls = w.calls)

theorem callsSpend_of_step {w w' : RulesSystemtest.World} {e : RulesSystemtest.Event} {o : RulesSystemtest.Obs}
    (he : isInternal e = true) (hst : RulesSystemtest.Step H w e o w') : CallsSpend w e o w' := by
  cases hst with
  | enter | reject | keepalive | release | status => cases he
  | attach hc | insert hc | spawnFail hc | connectFail hc | describeFail hc | createFail hc | spawnPanic hc
  | cancelBare hc | cancelGuarded hc => exact .ended rfl (by simp [Rpc.work]) hc (by simp)
  | miss hc | spawn hc | connect hc | describe hc | create hc => exact .going rfl hc rfl (by simp [phaseWork])
  | connectAgain => exact .idle (decide_eq_true rfl) rfl rfl
  | exit | write => exact .idle rfl rfl rfl

theorem phaseWork_pos (p : Phase) : 0 < phaseWork p := by
  cases p <;> simp [phaseWork]

/-! ### One part of a deployment changes -/

theorem weightOf_some {ν : Type*} {f : ν → ℕ} {v : ν} : weightOf f (some v) = f v := rfl

theorem work_runner {r : RunnerId} {m : Member} (hm : D.runners.lookup r = some m) (m' : Member) :
    { D with runners := D.runners.insert r m' }.work + localWork m.locals = D.work + localWork m'.locals := by
  have hw := weight_insert (f := fun m => localWork m.locals) D.runners r m'
  rw [hm, weightOf_some] at hw
  simp only [State.work]
  omega

theorem work_rpc (c : CallId) (rpc : Rpc) : { D with rpcs := D.rpcs.insert c rpc }.work +
    weightOf Rpc.work (D.rpcs.lookup c) = D.work + rpc.work := by
  have hw := weight_insert (f := Rpc.work) D.rpcs c rpc
  simp only [State.work]
  omega

theorem work_call {w : RulesSystemtest.World} {c : CallId} {k : Call}
    (hw : w.calls = D.coordinator.calls.insert c k) : { D with coordinator := w }.work +
      weightOf callWork (D.coordinator.calls.lookup c) = D.work + callWork k := by
  have hweight := weight_insert (f := callWork) D.coordinator.calls c k
  simp only [State.work, hw]
  omega

theorem work_coordinator {w : RulesSystemtest.World} (hw : w.calls = D.coordinator.calls) :
    { D with coordinator := w }.work = D.work := by
  simp only [State.work, hw]

/-! ### One step -/

/-- The steps that tests, their calls and the handlers are made of. -/
def Moment.counts (t : Moment) : Bool :=
  match t.obs with
  | .did _ _ => true
  | .moved e _ => !isIdle t.pre.coordinator e t.post.coordinator
  | _ => false

/-- What the start of a runner brings: some work for each of its fixtures. -/
def Moment.brings (t : Moment) : ℕ :=
  match t.event with
  | .start _ J => 3 + 11 * J.setup.fixtures.length
  | _ => 0

theorem work_send (hD : Wired D) {r : RunnerId} {c : CallId} {m : Member} {i : Input} {rpc : Rpc}
    {t : List Runner.Event} {L : Local} (hm : D.runners.lookup r = some m) (hc : D.rpcs.lookup c = none)
    (hn : nextCall m.job m.locals = some (i, rpc)) (hst : m.locals.step m.job i = some (t, L)) :
    { D with runners := D.runners.insert r ⟨m.job, L, some c⟩, rpcs := D.rpcs.insert c rpc }.work < D.work := by
  have hpolls := hD.unpolled r m hm
  have hlocal := localWork_moves (moves_of_step hst) hpolls fun resp heq => absurd heq ((nextCall_request hn).2.2 _)
  have hcall := work_nextCall hn hpolls
  have hrpc := work_rpc (D := D) c rpc
  rw [hc] at hrpc
  have hrunner := work_runner (D := { D with rpcs := D.rpcs.insert c rpc }) hm ⟨m.job, L, some c⟩
  simp only [weightOf, Option.map_none, Option.getD_none] at hrpc hrunner
  omega

theorem work_receive (hD : Wired D) {r : RunnerId} {c : CallId} {m : Member} {i : Input} {rpc : Rpc}
    {t : List Runner.Event} {L : Local} (hm : D.runners.lookup r = some m) (hc : D.rpcs.lookup c = some rpc)
    (hi : rpc.input? = some i) (hst : m.locals.step m.job i = some (t, L)) :
    { D with runners := D.runners.insert r ⟨m.job, L, none⟩, rpcs := D.rpcs.insert c .done }.work < D.work := by
  have hlocal : localWork L + spends i ≤ localWork m.locals := by
    refine localWork_moves (moves_of_step hst) (hD.unpolled r m hm) ?_
    rintro resp rfl
    rw [hD.replies c resp (input?_granted hi ▸ hc)]
    decide
  have hreply : rpc.work = 1 := by
    cases rpc <;> cases hi <;> rfl
  have hrpc := work_rpc (D := D) c .done
  rw [hc, weightOf_some, hreply] at hrpc
  have hrunner := work_runner (D := { D with rpcs := D.rpcs.insert c .done }) hm ⟨m.job, L, none⟩
  have hdone : Rpc.work .done = 0 := rfl
  simp only at hrunner
  omega

theorem work_act (hD : Wired D) {r : RunnerId} {m : Member} {i : Input} {t : List Runner.Event} {L : Local}
    (hm : D.runners.lookup r = some m) (hi : Alone r e i) (hst : m.locals.step m.job i = some (t, L)) :
    { D with runners := D.runners.insert r ⟨m.job, L, none⟩ }.work < D.work := by
  have hlocal : localWork L + spends i ≤ localWork m.locals := by
    refine localWork_moves (moves_of_step hst) (hD.unpolled r m hm) ?_
    rintro resp rfl
    cases hi
  have hspends : spends i = 1 := by
    cases i with
    | took reply =>
      cases reply with
      | error e => rfl
      | ok resp => cases hi
    | call | release => cases hi
    | _ => rfl
  have hrunner := work_runner hm ⟨m.job, L, none⟩
  simp only at hrunner
  omega

theorem work_arrive {c : CallId} {rpc : Rpc} {e : RulesSystemtest.Event} {o : RulesSystemtest.Obs}
    {w : RulesSystemtest.World} (hc : D.rpcs.lookup c = some rpc) (he : rpc.request? c = some e)
    (hst : RulesSystemtest.Step H D.coordinator e o w) :
    { D with coordinator := w, rpcs := D.rpcs.insert c (arrived o) }.work + (if isIdle D.coordinator e w then 0 else 1) ≤ D.work := by
  have hrpc := work_rpc (D := D) c (arrived o)
  rw [hc, weightOf_some] at hrpc
  cases rpc with
  | takeLease req =>
    cases he
    cases hst with
    | @enter _ _ a hcall _ =>
      have hcalls := work_call (D := { D with rpcs := D.rpcs.insert c .serving }) (k := .running a .fingerprinted)
        (w := D.coordinator.setCall c _) rfl
      simp only [hcall, weightOf, Option.map_none, Option.getD_none, callWork, phaseWork] at hcalls
      simp only [arrived, Rpc.work, isIdle, Bool.false_eq_true, if_false] at hrpc hcalls ⊢
      omega
    | @reject _ _ s hcall _ =>
      have hcalls := work_call (D := { D with rpcs := D.rpcs.insert c (.took (.error s)) }) (k := .finished)
        (w := D.coordinator.setCall c _) rfl
      simp only [hcall, weightOf, Option.map_none, Option.getD_none, callWork] at hcalls
      simp only [arrived, Rpc.work, isIdle, Bool.false_eq_true, if_false] at hrpc hcalls ⊢
      omega
  | status leaseID | keepalive leaseID | releaseLease leaseID =>
    cases he
    cases hst
    simp only [arrived, Rpc.work, State.work, isIdle, Bool.false_eq_true, if_false, if_true] at hrpc ⊢
    omega
  | serving | took | told | done => cases he

theorem work_serve (hD : Wired D) {e : RulesSystemtest.Event} {o : RulesSystemtest.Obs}
    {w : RulesSystemtest.World} (he : isInternal e = true) (hst : RulesSystemtest.Step H D.coordinator e o w) :
    { D with coordinator := w, rpcs := endCall D.rpcs (ended? o) }.work + (if isIdle D.coordinator e w then 0 else 1) ≤ D.work := by
  have hidle : (if isIdle D.coordinator e w then 0 else 1) ≤ 1 := by split <;> decide
  cases callsSpend_of_step he hst with
  | @ended c rpc a p hended hrpc hc hw =>
    have hagree := hD.agree c
    rw [hc] at hagree
    have hcalls := work_call (D := { D with rpcs := D.rpcs.insert c rpc }) hw
    have hcall := work_rpc (D := D) c rpc
    have hpos := phaseWork_pos p
    have hserving : Rpc.work .serving = 1 := rfl
    rw [hc, weightOf_some] at hcalls
    rw [hagree.serving, weightOf_some, hserving] at hcall
    rw [hended]
    simp only [endCall, callWork] at hcalls ⊢
    omega
  | @going c a p q hended hc hw hq =>
    have hcalls := work_call hw
    rw [hc, weightOf_some] at hcalls
    rw [hended]
    simp only [endCall, callWork] at hcalls ⊢
    omega
  | idle hi hended hw =>
    rw [hended, hi, if_pos rfl]
    exact (work_coordinator hw).le

theorem counts_moved (e : RulesSystemtest.Event) (o : RulesSystemtest.Obs) (ev : Event) :
    (if Moment.counts ⟨D, ev, .moved e o, D'⟩ then 1 else 0) =
      if isIdle D.coordinator e D'.coordinator then 0 else 1 := by
  cases h : isIdle D.coordinator e D'.coordinator <;> simp [Moment.counts, h]

theorem work_step (hD : Wired D) (hst : Step H D e o D') :
    (if Moment.counts ⟨D, e, o, D'⟩ then 1 else 0) + D'.work ≤ D.work + Moment.brings ⟨D, e, o, D'⟩ := by
  cases hst with
  | @start r J hr =>
    have hput := weight_insert (f := fun m => localWork m.locals) D.runners r ⟨J, .start J, none⟩
    have hstart : localWork (.start J) = 3 + 11 * J.setup.fixtures.length := rfl
    simp only [hr, weightOf, Option.map_none, Option.getD_none, hstart] at hput
    simp only [Moment.counts, Moment.brings, State.work, Bool.false_eq_true, if_false]
    omega
  | send hm hc hn hst =>
    have hwork := work_send hD hm hc hn hst
    simp only [Moment.counts, Moment.brings, if_true]
    omega
  | receive hm _ hc hi hst =>
    have hwork := work_receive hD hm hc hi hst
    simp only [Moment.counts, Moment.brings, if_true]
    omega
  | act hm hi hst =>
    have hwork := work_act hD hm hi hst
    simp only [Moment.counts, if_true]
    omega
  | @crash r m hm =>
    have hout := weight_erase (f := fun m => localWork m.locals) hm
    simp only [Moment.counts, Moment.brings, State.work, Bool.false_eq_true, if_false]
    omega
  | @beat r n c m lease hm hc hl =>
    have hrpc := work_rpc (D := D) c (.keepalive lease.id)
    simp only [hc, weightOf, Option.map_none, Option.getD_none, Rpc.work] at hrpc
    simp only [Moment.counts, Moment.brings, Bool.false_eq_true, if_false]
    omega
  | @lose c rpc hc hf =>
    have hrpc := work_rpc (D := D) c .done
    simp only [hc, weightOf_some, Rpc.work] at hrpc
    simp only [Moment.counts, Moment.brings, Bool.false_eq_true, if_false]
    omega
  | @arrive c rpc e o w hc he hst =>
    have hwork := work_arrive hc he hst
    rw [counts_moved]
    simp only at hwork ⊢
    omega
  | @serve e o w he hst =>
    have hwork := work_serve hD he hst
    rw [counts_moved]
    simp only at hwork ⊢
    omega

/-- In every run, the steps that count are no more than those that the tests that were
started stand for: three for each test and eleven for each of its fixtures. -/
theorem steps_bounded (hr : Runs H h D) : h.countP Moment.counts + D.work ≤ (h.map Moment.brings).sum := by
  refine Machine.Run.paid hereditary_true ?_ ?_ hr trivial
  · rintro _ ⟨files, rfl⟩
    rfl
  · exact fun h D e o D' hr _ hst => work_step (Runs.wired hr) (step_cases hst)

set_option maxRecDepth 4000 in
/-- A test of one fixture, which is created for it, takes all of its steps. -/
theorem steps_bounded_sample :
    let run := sampleRun (sampleTest 0 0 "redis" "alice" "l0" "6379" ++ sampleEnd 0 1)
    run.1.countP Moment.counts = 14 ∧ run.2.work = 0 := by
  intro run
  have hbound : run.1.countP Moment.counts + run.2.work ≤ (run.1.map Moment.brings).sum :=
    steps_bounded (sampleRun_runs _)
  have hbrings : (run.1.map Moment.brings).sum = 14 := by decide
  have hcounts : run.1.countP Moment.counts = 14 := by decide
  rw [hcounts, hbrings] at hbound
  exact ⟨hcounts, by omega⟩

/-! ### Waiting for a call -/

/-- A call of `TakeLease`, as far as it got. -/
def Rpc.isTake : Rpc → Bool
  | .takeLease _ | .serving | .took _ | .done => true
  | _ => false

theorem isTake_step (hst : Step H D e o D') {c : CallId} {rpc : Rpc} (hc : D.rpcs.lookup c = some rpc)
    (ht : rpc.isTake = true) : ∃ rpc', D'.rpcs.lookup c = some rpc' ∧ rpc'.isTake = true := by
  have hother : ∀ {c' : CallId} {rpc' : Rpc}, (c' = c → rpc'.isTake = true) →
      ∃ rpc'', (D.rpcs.insert c' rpc').lookup c = some rpc'' ∧ rpc''.isTake = true := by
    intro c' rpc' h
    rw [HashMap.lookup_insert]
    split
    · next heq => exact ⟨rpc', rfl, h heq.symm⟩
    · exact ⟨rpc, hc, ht⟩
  cases hst with
  | start | act | crash => exact ⟨rpc, hc, ht⟩
  | send _ hnone | beat _ hnone =>
    apply hother
    rintro rfl
    cases hc.symm.trans hnone
  | receive | lose => exact hother fun _ => rfl
  | @arrive c' rpc' e o w hc' he hst =>
    apply hother
    rintro rfl
    obtain rfl := Option.some.inj (hc.symm.trans hc')
    cases rpc with
    | takeLease req =>
      cases he
      cases hst <;> rfl
    | serving | took | done => cases he
    | _ => cases ht
  | serve he hst =>
    cases callMove_of_step he hst with
    | ended hended hrpc =>
      rw [hended]
      apply hother
      rcases hrpc with rfl | ⟨reply, rfl⟩ <;> exact fun _ => rfl
    | going hended | idle hended =>
      rw [hended]
      exact ⟨rpc, hc, ht⟩

/-- The call of a runner that takes a lease. -/
def Waits (D : State) (m : Member) (c : CallId) : Prop :=
  m.call = some c ∧ ∃ rpc, D.rpcs.lookup c = some rpc ∧ rpc.isTake = true

theorem Runs.waits (hr : Runs H h D) : ∀ r m fx todo, D.runners.lookup r = some m →
    m.locals.stage = .taking fx todo → ∃ c, Waits D m c := by
  induction hr with
  | init hD =>
    obtain ⟨files, rfl⟩ := hD
    intro r m _ _ hm
    simp [State.start] at hm
  | @step h D D' e o hr hst ih =>
    intro r m fx todo hm hs
    have hst := step_cases hst
    cases memberMove_of_step hst hm with
    | kept hm₀ =>
      obtain ⟨c, hcall, rpc, hc, ht⟩ := ih r m fx todo hm₀ hs
      exact ⟨c, hcall, isTake_step hst hc ht⟩
    | started hm₀ =>
      rw [hm₀] at hs
      cases hs
    | @sent c m₀ i rpc t L hm₀ hn hmove hm' hc =>
      subst hm'
      obtain ⟨rfl, hstage⟩ := taking_moves (moves_of_step hmove) hs
      simp only [nextCall, hstage, Option.some.injEq, Prod.mk.injEq, true_and] at hn
      exact ⟨c, rfl, rpc, hc, hn ▸ rfl⟩
    | @received c m₀ i rpc t L hm₀ hcall hc hi hmove hm' =>
      subst hm'
      obtain ⟨rfl, -⟩ := taking_moves (moves_of_step hmove) hs
      cases rpc <;> cases hi
    | @alone _ m₀ i t L hm₀ hi hmove hm' =>
      subst hm'
      obtain ⟨rfl, -⟩ := taking_moves (moves_of_step hmove) hs
      cases hi

/-! ### A step that can be made -/

theorem exists_fresh_lease (ids : List LeaseId) : ∃ id, id ∉ ids := by
  have hinj : Function.Injective fun n : ℕ => (⟨String.ofList (List.replicate n 'x')⟩ : LeaseId) := by
    intro n n' heq
    have hlist := String.ofList_injective (LeaseId.mk.inj heq)
    simpa using congrArg List.length hlist
  have hinf : Infinite LeaseId := .of_injective _ hinj
  obtain ⟨id, hid⟩ := Infinite.exists_notMem_finset ids.toFinset
  exact ⟨id, by simpa using hid⟩

/-- The lease that a step grants is a fresh one. -/
def DrawsFresh (ids : List LeaseId) (x : Option (Ledger.Entry LeaseId Grant)) : Prop :=
  ∀ id g, x = some (.grant id g) → id ∉ ids

theorem drawsFresh_none (ids : List LeaseId) : DrawsFresh ids none := by
  intro id g hgrant
  cases hgrant

/-- A handler that runs can move, and draws a fresh lease if it grants one. -/
theorem call_moves (H : Host) {w : RulesSystemtest.World} {c : CallId} {a : Admitted} {p : Phase}
    (hc : w.calls.lookup c = some (.running a p)) (ids : List LeaseId) : ∃ e o w',
      RulesSystemtest.Step H w e o w' ∧ isInternal e = true ∧ e.call? = some c ∧ isIdle w e w' = false ∧
        DrawsFresh ids o.entry? := by
  obtain ⟨id, hid⟩ := exists_fresh_lease ids
  cases p with
  | fingerprinted =>
    cases hf : findReusable w.state a with
    | some record =>
      refine ⟨.reuse c id, _, _, .attach hc hf, rfl, rfl, rfl, ?_⟩
      rintro _ _ ⟨⟩
      exact hid
    | none => exact ⟨.reuse c id, _, _, .miss hc hf, rfl, rfl, rfl, drawsFresh_none _⟩
  | provisioning =>
    let refusal : RulesSystemtest.Status := ⟨.internal, "spawning plugin: " ++
      context ("creating plugin socket dir " ++ debugStr (pluginSocketDir H)) ""⟩
    have hfails : ∀ u : RulesSystemtest.World,
        stepSpawn H u c a "" (.dirFailed "") = some (u.refuse c refusal.code refusal.message) := fun _ => rfl
    exact ⟨_, _, _, .spawnFail hc hfails, rfl, rfl, rfl, drawsFresh_none _⟩
  | connecting child socketPath deadline =>
    refine ⟨.tryConnect c .ok, _, _, .connect hc rfl, rfl, rfl, decide_eq_false ?_, drawsFresh_none _⟩
    rw [setCall_calls, Finmap.lookup_insert, hc]
    exact nofun
  | connected plugin => exact ⟨.describe c (.ok ()), _, _, .describe hc, rfl, rfl, rfl, drawsFresh_none _⟩
  | described plugin =>
    exact ⟨.createFixture c ⟨""⟩ (.error ""), _, _, .createFail hc rfl, rfl, rfl, rfl, drawsFresh_none _⟩
  | created plugin result =>
    refine ⟨.insert c id, _, _, .insert hc, rfl, rfl, rfl, ?_⟩
    rintro _ _ ⟨⟩
    exact hid

/-- The steps of a runner, and those of the call that it waits for. It gives a call up
only if there will be no reply. -/
def OwnStep (D : State) (r : RunnerId) (m : Member) : Event → Prop
  | .send r' _ | .receive r' | .startTest r' _ | .endTest r' _ _ | .exit r' => r' = r
  | .fail r' _ => r' = r ∧ ∃ c, m.call = some c ∧ D.rpcs.lookup c = some .done
  | .arrive c => m.call = some c
  | .serve e => ∃ c, m.call = some c ∧ e.call? = some c
  | _ => False

/-- A step that brings the runner closer to its end. It draws a fresh lease if it grants one. -/
structure Advances (H : Host) (h : History) (D : State) (r : RunnerId) (m : Member) (e : Event) (o : Obs) (D' : State) :
    Prop where
  step : step H D e = some (o, D')
  own : OwnStep D r m e
  work : D'.work < D.work
  stays : ∃ m', D'.runners.lookup r = some m' ∧ m'.job = m.job
  fresh : DrawsFresh (Ledger.issued (ledger (served h))) o.entry?

variable {r : RunnerId} {m : Member}

theorem exists_fresh_call (D : State) : ∃ c, D.rpcs.lookup c = none := by
  obtain ⟨c, hc⟩ := Infinite.exists_notMem_finset D.rpcs.keys
  exact ⟨c, Finmap.lookup_eq_none.2 (Finmap.mem_keys.not.1 hc)⟩

theorem advances_send (hr : Runs H h D) (hm : D.runners.lookup r = some m) {i : Input} {rpc : Rpc}
    (hn : nextCall m.job m.locals = some (i, rpc)) (hst : ∃ s, m.locals.step m.job i = some s) :
    ∃ e o D', Advances H h D r m e o D' := by
  obtain ⟨c, hc⟩ := exists_fresh_call D
  obtain ⟨⟨t, L⟩, hst⟩ := hst
  refine ⟨.send r c, .did r t, _, ?_, rfl, work_send hr.wired hm hc hn hst, ⟨_, Finmap.lookup_insert _, rfl⟩, drawsFresh_none _⟩
  simp [step, Event.runner?, hm, stepRunner, stepSend, hc, hn, State.act, hst]

theorem advances_act (hr : Runs H h D) (hm : D.runners.lookup r = some m) {e : Event} {i : Input}
    {t : List Runner.Event} {L : Local} (hi : Alone r e i) (hst : m.locals.step m.job i = some (t, L))
    (hown : OwnStep D r m e) (hact : step H D e = D.act r m i none) : ∃ e o D', Advances H h D r m e o D' := by
  refine ⟨e, .did r t, { D with runners := D.runners.insert r ⟨m.job, L, none⟩ }, ?_, hown,
    work_act hr.wired hm hi hst, ⟨_, Finmap.lookup_insert _, rfl⟩, drawsFresh_none _⟩
  rw [hact, State.act, hst]
  rfl

/-- A reply is there. -/
theorem advances_receive (hr : Runs H h D) (hm : D.runners.lookup r = some m) {c : CallId} {rpc : Rpc} {i : Input}
    {t : List Runner.Event} {L : Local} (hcall : m.call = some c) (hc : D.rpcs.lookup c = some rpc)
    (hi : rpc.input? = some i) (hst : m.locals.step m.job i = some (t, L)) : ∃ e o D', Advances H h D r m e o D' := by
  refine ⟨.receive r, .did r t, _, ?_, rfl, work_receive hr.wired hm hc hi hst, ⟨_, Finmap.lookup_insert _, rfl⟩, drawsFresh_none _⟩
  simp [step, Event.runner?, hm, stepRunner, stepReceive, hcall, hc, hi, State.act, hst]

theorem advances_arrive (hm : D.runners.lookup r = some m) {c : CallId} {rpc : Rpc} {e : RulesSystemtest.Event}
    {o : RulesSystemtest.Obs} {w : RulesSystemtest.World} (hcall : m.call = some c) (hc : D.rpcs.lookup c = some rpc)
    (he : rpc.request? c = some e) (hst : RulesSystemtest.Step H D.coordinator e o w)
    (hidle : isIdle D.coordinator e w = false) (ho : o.entry? = none) : ∃ e o D', Advances H h D r m e o D' := by
  have hwork := work_arrive hc he hst
  rw [hidle] at hwork
  refine ⟨.arrive c, .moved e o, _, ?_, hcall, Nat.lt_of_succ_le hwork, ⟨m, hm, rfl⟩, ?_⟩
  · simp [step, stepArrive, hc, he, step_of_step hst]
  · change DrawsFresh _ o.entry?
    rw [ho]
    exact drawsFresh_none _

theorem advances_serve (hr : Runs H h D) (hm : D.runners.lookup r = some m) {c : CallId} {a : Admitted} {p : Phase}
    (hcall : m.call = some c) (hc : D.coordinator.calls.lookup c = some (.running a p)) :
    ∃ e o D', Advances H h D r m e o D' := by
  obtain ⟨e, o, w, hst, he, hec, hidle, hfresh⟩ := call_moves H hc (Ledger.issued (ledger (served h)))
  have hwork := work_serve hr.wired he hst
  rw [hidle] at hwork
  refine ⟨.serve e, .moved e o, _, ?_, ⟨c, hcall, hec⟩, Nat.lt_of_succ_le hwork, ⟨m, hm, rfl⟩, hfresh⟩
  simp [step, stepServe, he, step_of_step hst]

/-- A runner that takes a lease has its call answered, or it gives it up. -/
theorem advances_taking (hr : Runs H h D) (hm : D.runners.lookup r = some m) {fx : ResolvedFixture}
    {todo : List ResolvedFixture} (hs : m.locals.stage = .taking fx todo) : ∃ e o D', Advances H h D r m e o D' := by
  obtain ⟨c, hcall, rpc, hc, ht⟩ := hr.waits r m fx todo hm hs
  have hagree := hr.wired.agree c
  rw [hc] at hagree
  have htook : ∀ reply, m.locals.step m.job (.took reply) = some (stepTook m.job m.locals fx todo reply) := by
    intro reply
    simp only [Local.step, hs]
  cases rpc with
  | takeLease req =>
    have hnone : D.coordinator.calls.lookup c = none := hagree
    cases hv : takeLeaseValidate H D.coordinator.files req with
    | ok a => exact advances_arrive hm hcall hc rfl (.enter hnone hv) rfl rfl
    | error s => exact advances_arrive hm hcall hc rfl (.reject hnone hv) rfl rfl
  | serving =>
    obtain ⟨a, p, hw⟩ := hagree
    exact advances_serve hr hm hcall hw
  | took reply => exact advances_receive hr hm hcall hc rfl (htook _)
  | done =>
    refine advances_act hr hm (e := .fail r "") (.untaken "") (htook _) ⟨rfl, c, hcall, hc⟩ ?_
    simp [step, Event.runner?, hm, stepRunner, failure?, hs]
  | _ => cases ht

/-- A runner that has not returned can be brought closer to its end, and nobody else has to
do anything for it. -/
theorem exists_advances (hr : Runs H h D) (hm : D.runners.lookup r = some m)
    (hs : isReturned m.locals.stage = false) : ∃ e o D', Advances H h D r m e o D' := by
  have hpolls := hr.wired.unpolled r m hm
  cases hstage : m.locals.stage with
  | leasing todo =>
    cases todo with
    | nil =>
      have hstart := step_start (J := m.job) none hstage
      refine advances_act hr hm (e := .startTest r none) (.startTest none) hstart rfl ?_
      simp [step, Event.runner?, hm, stepRunner]
    | cons fx todo =>
      have hn : nextCall m.job m.locals = some (.call, .takeLease (takeLeaseRequest m.job fx)) := by
        simp only [nextCall, hstage]
      exact advances_send hr hm hn ⟨_, by simp only [Local.step, hstage]; rfl⟩
  | taking fx todo => exact advances_taking hr hm hstage
  | polling fx todo leaseID | asking fx todo leaseID =>
    rw [hstage] at hpolls
    cases hpolls
  | testing =>
    have hended := step_ended (J := m.job) .signaled 0 hstage
    refine advances_act hr hm (e := .endTest r .signaled 0) (.endTest .signaled 0) hended rfl ?_
    simp [step, Event.runner?, hm, stepRunner]
  | releasing result =>
    cases hleases : m.locals.leases with
    | nil =>
      have hexit : m.locals.step m.job .exit = some ([], { m.locals with stage := .returned result }) := by
        simp only [Local.step, hstage, stepExit, hleases]
      refine advances_act hr hm (e := .exit r) .exit hexit rfl ?_
      simp [step, Event.runner?, hm, stepRunner]
    | cons lease leases =>
      have hn : nextCall m.job m.locals = some (.release, .releaseLease lease.id) := by
        simp [nextCall, hstage, hleases]
      exact advances_send hr hm hn ⟨_, by simp only [Local.step, hstage, stepRelease, hleases]; rfl⟩
  | returned result =>
    rw [hstage] at hs
    cases hs

theorem Advances.freshIds {e : Event} {o : Obs} (ha : Advances H h D r m e o D') (hf : FreshIds (served h)) :
    FreshIds (served (⟨D, e, o, D'⟩ :: h)) := by
  unfold FreshIds
  cases ho : o.entry? with
  | none => rwa [ledger_served_quiet ho]
  | some x =>
    rw [ledger_served_entry ho]
    cases x with
    | grant id g => exact List.nodup_cons.2 ⟨ha.fresh id g ho, hf⟩
    | release id => exact hf

/-- A step of the runner `r` or of the call that it waits for. -/
def Moment.ownedBy (r : RunnerId) (t : Moment) : Prop :=
  ∃ m, t.pre.runners.lookup r = some m ∧ OwnStep t.pre r m t.event

/-- The runner, with this job, is in the deployment. -/
def Present (r : RunnerId) (J : Job) (D : State) : Prop := ∃ m, D.runners.lookup r = some m ∧ m.job = J

def HasReturned (r : RunnerId) (D : State) : Prop := ∀ m, D.runners.lookup r = some m → isReturned m.locals.stage = true

theorem owned_step {J : Job} (hr : Runs H h D) (hp : FreshIds (served h) ∧ Present r J D) (hd : ¬ HasReturned r D) :
    ∃ e o D', step H D e = some (o, D') ∧ (FreshIds (served (⟨D, e, o, D'⟩ :: h)) ∧ Present r J D') ∧
      Moment.ownedBy r ⟨D, e, o, D'⟩ ∧ D'.work < D.work := by
  obtain ⟨hf, m, hm, hjob⟩ := hp
  have hs : isReturned m.locals.stage = false := by
    by_contra hret
    refine hd fun m' hm' => ?_
    obtain rfl := Option.some.inj (hm.symm.trans hm')
    simpa using hret
  obtain ⟨e, o, D', ha⟩ := exists_advances hr hm hs
  obtain ⟨m', hm', hjob'⟩ := ha.stays
  exact ⟨e, o, D', ha.step, ⟨ha.freshIds hf, m', hm', hjob'.trans hjob⟩, ⟨m, hm, ha.own⟩, ha.work⟩

/-- From whatever state a deployment is in, every runner can return by steps of its own and
of its calls, as many as there is work to do. No other runner has to move, and no call has
to be given up that will be answered. -/
theorem runner_returns (hr : Runs H h D) (hf : FreshIds (served h)) (hm : D.runners.lookup r = some m) :
    ∃ u D', Runs H (u ++ h) D' ∧ FreshIds (served (u ++ h)) ∧ (∀ t ∈ u, Moment.ownedBy r t) ∧ u.length ≤ D.work ∧
      ∃ m' result, D'.runners.lookup r = some m' ∧ m'.job = m.job ∧ m'.locals.stage = .returned result := by
  obtain ⟨u, D', hr', hdone, ⟨hf', m', hm', hjob⟩, hown, hlen⟩ :=
    Machine.Run.exists_done (fun _ _ hr hp hd => owned_step hr hp hd) hr ⟨hf, m, hm, rfl⟩
  obtain ⟨result, hs⟩ := eq_returned (hdone m' hm')
  exact ⟨u, D', hr', hf', hown, Nat.le_of_add_right_le hlen, m', result, hm', hjob, hs⟩

set_option maxRecDepth 4000 in
/-- A runner that asked for a lease while the test of another one runs. -/
theorem runner_returns_sample :
    let run := sampleRun (sampleTest 0 0 "redis" "alice" "l0" "6379" ++ [.start 1 (sampleJob "redis" "bob"), .send 1 1])
    ∃ u D', Runs sampleHost (u ++ run.1) D' ∧ ∃ m result, D'.runners.lookup 1 = some m ∧
      m.locals.stage = .returned result := by
  intro run
  obtain ⟨m, hm⟩ : ∃ m, run.2.runners.lookup 1 = some m := ⟨_, rfl⟩
  obtain ⟨u, D', hr, -, -, -, m', result, hm', -, hs⟩ := runner_returns (sampleRun_runs _) (by decide) hm
  exact ⟨u, D', hr, m', result, hm', hs⟩

end RulesSystemtest.Deployment
