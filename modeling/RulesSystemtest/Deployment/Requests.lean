import RulesSystemtest.Deployment.Places
import RulesSystemtest.Coordinator.Instances

/-! What a lease was granted for. A call of `TakeLease` keeps the request of the runner
that waits for it, from the runner through the handler and back, so a lease that a
runner holds for a fixture was granted to its own request for that fixture. -/

namespace RulesSystemtest.Deployment

open Library Runner

variable {H : Host} {D D' : State} {e : Event} {o : Obs} {h : History}

/-- A lease that is granted to a request, with these outputs. -/
def GrantedTo (h : History) (id : LeaseId) (req : TakeLeaseRequest) (outputs : BTreeMap Value) : Prop :=
  ∃ g, Outstanding (served h) id g ∧ g.admitted.req = req ∧ g.outputs = outputs

/-- The call is for the request, as far as it got. -/
inductive Serves (h : History) (D : State) (c : CallId) (req : TakeLeaseRequest) : Prop where
  | requested (hc : D.rpcs.lookup c = some (.takeLease req))
  | serving {a : Admitted} {p : Phase} (hc : D.rpcs.lookup c = some .serving)
      (hw : D.coordinator.calls.lookup c = some (.running a p)) (ha : a.req = req)
  | granted {resp : TakeLeaseResponse} (hc : D.rpcs.lookup c = some (.took (.ok resp)))
      (hg : GrantedTo h ⟨resp.leaseId⟩ req resp.outputs)
  | refused {s : RulesSystemtest.Status} (hc : D.rpcs.lookup c = some (.took (.error s)))
  | done (hc : D.rpcs.lookup c = some .done)

theorem Serves.known {c : CallId} {req : TakeLeaseRequest} (hs : Serves h D c req) : D.rpcs.lookup c ≠ none := by
  cases hs with
  | requested hc | serving hc | granted hc | refused hc | done hc =>
    rw [hc]
    exact nofun

/-- A lease that stays in some place stays granted. -/
theorem GrantedTo.persists (hp : Placed h D) (hm : LeaseMove D e o D') {q : Place} {id : LeaseId}
    {req : TakeLeaseRequest} {outputs : BTreeMap Value} (hq : D'.owns q = some id) (hg : GrantedTo h id req outputs) :
    GrantedTo (⟨D, e, o, D'⟩ :: h) id req outputs := by
  refine hg.imp fun g => And.imp_left fun hg => ?_
  cases hm with
  | kept hl ho | passed _ _ _ hl _ _ ho | lost hl _ ho => exact (outstanding_served_quiet hl).2 hg
  | granted hl _ ho => exact (outstanding_served_grant hl).2 (.inr hg)
  | released hl hc ho =>
    refine (outstanding_served_release hl).2 ⟨hg, ?_⟩
    rintro rfl
    -- the released lease was in the release only
    rw [ho] at hq
    rcases update_eq_some hq with ⟨-, hid⟩ | ⟨hne, hq⟩
    · cases hid
    · exact hne (hp.exclusive _ _ _ hq hc)

/-- A call that a step does not touch. -/
theorem Serves.frame (hp : Placed h D) (hm : LeaseMove D e o D') {c : CallId} {req : TakeLeaseRequest}
    (hs : Serves h D c req) (hrpc : D'.rpcs.lookup c = D.rpcs.lookup c)
    (hcalls : D'.coordinator.calls.lookup c = D.coordinator.calls.lookup c) :
    Serves (⟨D, e, o, D'⟩ :: h) D' c req := by
  cases hs with
  | requested hc => exact .requested (hrpc.trans hc)
  | serving hc hw ha => exact .serving (hrpc.trans hc) (hcalls.trans hw) ha
  | granted hc hg => exact .granted (hrpc.trans hc) (hg.persists hp hm (owns_rpc (hrpc.trans hc)))
  | refused hc => exact .refused (hrpc.trans hc)
  | done hc => exact .done (hrpc.trans hc)

/-- A reply that grants a lease is for the call that ran. -/
theorem granted_of_step {w w' : RulesSystemtest.World} {e : RulesSystemtest.Event} {id : LeaseId} {g : Grant}
    {resp : TakeLeaseResponse} (hst : RulesSystemtest.Step H w e (.granted id g resp) w') :
    (∃ p, w.calls.lookup g.call = some (.running g.admitted p)) ∧ resp.leaseId = id.value ∧ resp.outputs = g.outputs := by
  cases hst with
  | attach hc _ => exact ⟨⟨_, hc⟩, rfl, rfl⟩
  | insert hc => exact ⟨⟨_, hc⟩, rfl, rfl⟩

theorem serves_arrive (hp : Placed h D) {c c' : CallId} {rpc : Rpc} {e : RulesSystemtest.Event}
    {o : RulesSystemtest.Obs} {w : RulesSystemtest.World} {req : TakeLeaseRequest}
    (hc : D.rpcs.lookup c' = some rpc) (he : rpc.request? c' = some e)
    (hst : RulesSystemtest.Step H D.coordinator e o w) (hs : Serves h D c req)
    (hm : LeaseMove D (.arrive c') (.moved e o) { D with coordinator := w, rpcs := D.rpcs.insert c' (arrived o) }) :
    Serves (⟨D, .arrive c', .moved e o, { D with coordinator := w, rpcs := D.rpcs.insert c' (arrived o) }⟩ :: h)
      { D with coordinator := w, rpcs := D.rpcs.insert c' (arrived o) } c req := by
  by_cases heq : c = c'
  · subst heq
    have hself : (D.rpcs.insert c (arrived o)).lookup c = some (arrived o) := by simp
    cases hs with
    | requested hreq =>
      obtain rfl := Option.some.inj (hc.symm.trans hreq)
      cases he
      cases hst with
      | enter _ hv => exact .serving hself (by rw [setCall_calls, HashMap.lookup_insert, if_pos rfl]) (takeLeaseValidate_eq_ok hv).1
      | reject _ _ => exact .refused hself
    | serving hother | granted hother | refused hother | done hother =>
      obtain rfl := Option.some.inj (hc.symm.trans hother)
      cases he
  · refine hs.frame hp hm (Finmap.lookup_insert_of_ne _ heq) ?_
    refine hst.other_calls ?_ ?_
    · cases rpc <;> cases he <;> exact nofun
    · rintro req' rfl
      cases rpc <;> cases he
      exact heq rfl

theorem serves_serve (hp : Placed h D) (hD : Wired D) {c : CallId} {e : RulesSystemtest.Event}
    {o : RulesSystemtest.Obs} {w : RulesSystemtest.World} {req : TakeLeaseRequest} (he : isInternal e = true)
    (hst : RulesSystemtest.Step H D.coordinator e o w) (hs : Serves h D c req)
    (hm : LeaseMove D (.serve e) (.moved e o) { D with coordinator := w, rpcs := endCall D.rpcs (ended? o) }) :
    Serves (⟨D, .serve e, .moved e o, { D with coordinator := w, rpcs := endCall D.rpcs (ended? o) }⟩ :: h)
      { D with coordinator := w, rpcs := endCall D.rpcs (ended? o) } c req := by
  cases callMove_of_step he hst with
  | @ended c' rpc a p hended hrpc hc hw =>
    by_cases heq : c = c'
    · subst heq
      have hagree := hD.agree c
      rw [hc] at hagree
      have ha : a.req = req := by
        cases hs with
        | serving _ hw ha =>
          obtain ⟨rfl, -⟩ := Call.running.inj (Option.some.inj (hc.symm.trans hw))
          exact ha
        | requested hother | granted hother | refused hother | done hother =>
          cases hagree.serving.symm.trans hother
      have hself : (endCall D.rpcs (ended? o)).lookup c = some rpc := by
        rw [hended]
        exact Finmap.lookup_insert _
      rcases hrpc with rfl | ⟨reply, rfl⟩
      · exact .done hself
      · cases reply with
        | error s => exact .refused hself
        | ok resp =>
          obtain ⟨id, g, rfl, rfl⟩ : ∃ id g, o = .granted id g resp ∧ g.call = c := by
            cases o <;> cases hended
            exact ⟨_, _, rfl, rfl⟩
          obtain ⟨⟨q, hq⟩, hid, hout⟩ := granted_of_step hst
          obtain ⟨rfl, -⟩ := Call.running.inj (Option.some.inj (hc.symm.trans hq))
          refine .granted hself ⟨g, ?_, ha, hout.symm⟩
          rw [hid]
          exact (outstanding_served_grant rfl).2 (.inl ⟨rfl, rfl⟩)
    · refine hs.frame hp hm ?_ ?_
      · rw [hended]
        exact Finmap.lookup_insert_of_ne _ heq
      · rw [hw]
        exact Finmap.lookup_insert_of_ne _ heq
  | @going c' a p q hended hc hw =>
    have hrpcs : (endCall D.rpcs (ended? o)).lookup c = D.rpcs.lookup c := by rw [hended]; rfl
    by_cases heq : c = c'
    · subst heq
      cases hs with
      | serving hrpc hw' ha =>
        obtain ⟨rfl, -⟩ := Call.running.inj (Option.some.inj (hc.symm.trans hw'))
        exact .serving (hrpcs.trans hrpc) (by rw [hw, HashMap.lookup_insert, if_pos rfl]) ha
      | requested hother | granted hother | refused hother | done hother =>
        have hagree := hD.agree c
        rw [hc] at hagree
        cases hagree.serving.symm.trans hother
    · refine hs.frame hp hm hrpcs ?_
      rw [hw]
      exact Finmap.lookup_insert_of_ne _ heq
  | idle hended hw => exact hs.frame hp hm (by rw [hended]; rfl) (by rw [hw])

theorem serves_step (hr : Runs H h D) (hf : FreshIds (served h)) (hst : Step H D e o D') {c : CallId}
    {req : TakeLeaseRequest} (hs : Serves h D c req) : Serves (⟨D, e, o, D'⟩ :: h) D' c req := by
  have hp := hr.placed hf
  have hm := leaseMove_of_step hr hst
  -- the calls that are sent now are others
  have hne : ∀ c', D.rpcs.lookup c' = none → c ≠ c' := by
    rintro c' hc' rfl
    exact hs.known hc'
  cases hst with
  | start | act | crash => exact hs.frame hp hm rfl rfl
  | send _ hc _ _ | beat _ hc _ => exact hs.frame hp hm (Finmap.lookup_insert_of_ne _ (hne _ hc)) rfl
  | @receive r c' | @lose c' =>
    by_cases heq : c = c'
    · subst heq
      exact .done (Finmap.lookup_insert _)
    · exact hs.frame hp hm (Finmap.lookup_insert_of_ne _ heq) rfl
  | arrive hc he hst => exact serves_arrive hp hc he hst hs hm
  | serve he hst => exact serves_serve hp hr.wired he hst hs hm

/-! ### What a step does to a runner -/

/-- A runner after a step: the one that it was, one that just started, or one that moved
with a message that it sent, with one that it got, or alone. -/
inductive MemberMove (D : State) (D' : State) (r : RunnerId) (m' : Member) : Prop where
  | kept (hm : D.runners.lookup r = some m')
  | started (hm : m' = ⟨m'.job, .start m'.job, none⟩)
  | sent {c : CallId} {m : Member} {i : Input} {rpc : Rpc} {t : List Runner.Event} {L : Local}
      (hm : D.runners.lookup r = some m) (hn : nextCall m.job m.locals = some (i, rpc))
      (hst : m.locals.step m.job i = some (t, L)) (hm' : m' = ⟨m.job, L, some c⟩)
      (hc : D'.rpcs.lookup c = some rpc)
  | received {c : CallId} {m : Member} {i : Input} {rpc : Rpc} {t : List Runner.Event} {L : Local}
      (hm : D.runners.lookup r = some m) (hcall : m.call = some c) (hc : D.rpcs.lookup c = some rpc)
      (hi : rpc.input? = some i) (hst : m.locals.step m.job i = some (t, L)) (hm' : m' = ⟨m.job, L, none⟩)
  | alone {e : Event} {m : Member} {i : Input} {t : List Runner.Event} {L : Local}
      (hm : D.runners.lookup r = some m) (hi : Alone r e i) (hst : m.locals.step m.job i = some (t, L))
      (hm' : m' = ⟨m.job, L, none⟩)

theorem memberMove_insert {r r' : RunnerId} {m m' : Member} {D' : State}
    (hD : D'.runners = D.runners.insert r m) (hm' : D'.runners.lookup r' = some m')
    (hself : MemberMove D D' r m) : MemberMove D D' r' m' := by
  rw [hD, HashMap.lookup_insert] at hm'
  by_cases hr : r' = r
  · subst hr
    rw [if_pos rfl] at hm'
    exact Option.some.inj hm' ▸ hself
  · rw [if_neg hr] at hm'
    exact .kept hm'

theorem memberMove_of_step (hst : Step H D e o D') {r : RunnerId} {m' : Member}
    (hm' : D'.runners.lookup r = some m') : MemberMove D D' r m' := by
  cases hst with
  | start _ => exact memberMove_insert rfl hm' (.started rfl)
  | send hm _ hn hst => exact memberMove_insert rfl hm' (.sent hm hn hst rfl (Finmap.lookup_insert _))
  | receive hm hcall hc hi hst => exact memberMove_insert rfl hm' (.received hm hcall hc hi hst rfl)
  | act hm hi hst => exact memberMove_insert rfl hm' (.alone hm hi hst rfl)
  | crash _ =>
    simp only [HashMap.lookup_erase] at hm'
    split at hm'
    · cases hm'
    · exact .kept hm'
  | _ => exact .kept hm'

/-! ### What runners wait for and what they hold -/

structure Requested (h : History) (D : State) : Prop where
  taking : ∀ r m fx todo c, D.runners.lookup r = some m → m.locals.stage = .taking fx todo → m.call = some c →
    Serves h D c (takeLeaseRequest m.job fx)
  held : ∀ r m, D.runners.lookup r = some m → ∀ l ∈ m.locals.leases, ∃ fx,
    m.job.setup.fixtures[l.stop]? = some fx ∧ GrantedTo h ⟨l.id⟩ (takeLeaseRequest m.job fx) l.outputs

theorem requested_start (files : FileSystem) : Requested [] (.start files) where
  taking r m _ _ _ hm := by simp [State.start] at hm
  held r m hm := by simp [State.start] at hm

theorem requested_taking (hr : Runs H h D) (hf : FreshIds (served h)) (hst : Step H D e o D') (hq : Requested h D)
    {r : RunnerId} {m : Member} {fx : ResolvedFixture} {todo : List ResolvedFixture} {c : CallId}
    (hm : D'.runners.lookup r = some m) (hs : m.locals.stage = .taking fx todo) (hc : m.call = some c) :
    Serves (⟨D, e, o, D'⟩ :: h) D' c (takeLeaseRequest m.job fx) := by
  cases memberMove_of_step hst hm with
  | kept hm₀ => exact serves_step hr hf hst (hq.taking r m fx todo c hm₀ hs hc)
  | started hm₀ =>
    rw [hm₀] at hc
    cases hc
  | sent hm₀ hn hmove hm' hrpc =>
    subst hm'
    obtain rfl := Option.some.inj hc
    obtain ⟨rfl, hstage⟩ := taking_moves (moves_of_step hmove) hs
    simp only [nextCall, hstage, Option.some.injEq, Prod.mk.injEq, true_and] at hn
    exact .requested (hn ▸ hrpc)
  | received _ _ _ _ _ hm' | alone _ _ _ hm' =>
    subst hm'
    cases hc

/-- A lease of a runner that it had before, or that the reply to its call granted. -/
theorem lease_of_move {D' : State} {r : RunnerId} {m : Member} {l : ActiveLease} (hD : Wired D)
    (hm : MemberMove D D' r m) (hl : l ∈ m.locals.leases) :
    (∃ m₀, D.runners.lookup r = some m₀ ∧ m₀.job = m.job ∧ l ∈ m₀.locals.leases) ∨
      ∃ m₀ c resp fx todo, D.runners.lookup r = some m₀ ∧ m₀.job = m.job ∧ m₀.call = some c ∧
        D.rpcs.lookup c = some (.took (.ok resp)) ∧ m₀.locals.stage = .taking fx todo ∧
        l = ⟨resp.leaseId, resp.outputs, m₀.locals.next⟩ := by
  have hquiet : ∀ {m₀ : Member} {i : Input} {t : List Runner.Event} {L : Local} {call : Option CallId},
      D.runners.lookup r = some m₀ → m₀.locals.step m₀.job i = some (t, L) → m = ⟨m₀.job, L, call⟩ →
      (∀ resp, i ≠ .took (.ok resp)) → l ∈ m₀.locals.leases := by
    rintro m₀ i t L call hm₀ hst rfl hi
    rcases leases_moves (moves_of_step hst) (hD.unpolled r m₀ hm₀) hi with ⟨-, heq⟩ | ⟨-, lease, heq⟩
    · exact heq ▸ hl
    · exact heq ▸ List.mem_cons_of_mem _ hl
  cases hm with
  | kept hm => exact .inl ⟨m, hm, rfl, hl⟩
  | started hm =>
    rw [hm] at hl
    cases hl
  | sent hm₀ hn hst hm' _ =>
    have hi := (nextCall_request hn).2.2
    exact .inl ⟨_, hm₀, by rw [hm'], hquiet hm₀ hst hm' fun resp => hi _⟩
  | @alone _ m₀ i t L hm₀ hi hst hm' =>
    refine .inl ⟨_, hm₀, by rw [hm'], hquiet hm₀ hst hm' ?_⟩
    rintro resp rfl
    cases hi
  | @received c m₀ i rpc t L hm₀ hcall hc hi hst hm' =>
    by_cases htook : ∃ resp, i = .took (.ok resp)
    · obtain ⟨resp, rfl⟩ := htook
      obtain rfl := input?_granted hi
      obtain ⟨⟨fx, todo, hstage⟩, hleases⟩ := leases_took (moves_of_step hst) (hD.replies c resp hc)
      subst hm'
      rw [hleases, List.mem_append, List.mem_singleton] at hl
      rcases hl with hl | hl
      · exact .inl ⟨m₀, hm₀, rfl, hl⟩
      · exact .inr ⟨m₀, c, resp, fx, todo, hm₀, rfl, hcall, hc, hstage, hl⟩
    · exact .inl ⟨_, hm₀, by rw [hm'], hquiet hm₀ hst hm' fun resp heq => htook ⟨resp, heq⟩⟩

theorem requested_held (hr : Runs H h D) (hf : FreshIds (served h)) (hst : step H D e = some (o, D'))
    (hq : Requested h D) {r : RunnerId} {m : Member} (hm : D'.runners.lookup r = some m) {l : ActiveLease}
    (hl : l ∈ m.locals.leases) : ∃ fx, m.job.setup.fixtures[l.stop]? = some fx ∧
      GrantedTo (⟨D, e, o, D'⟩ :: h) ⟨l.id⟩ (takeLeaseRequest m.job fx) l.outputs := by
  have hr' : Runs H (⟨D, e, o, D'⟩ :: h) D' := .step hr hst
  have howns : D'.owns (.lease r l.stop) = some ⟨l.id⟩ := by
    rw [owns_lease hm]
    exact leaseFor_eq_some (hr'.sound hm).nodup hl
  suffices hbefore : ∃ fx, m.job.setup.fixtures[l.stop]? = some fx ∧
      GrantedTo h ⟨l.id⟩ (takeLeaseRequest m.job fx) l.outputs by
    obtain ⟨fx, hfx, hg⟩ := hbefore
    exact ⟨fx, hfx, hg.persists (hr.placed hf) (leaseMove_of_step hr (step_cases hst)) howns⟩
  rcases lease_of_move hr.wired (memberMove_of_step (step_cases hst) hm) hl with
    ⟨m₀, hm₀, hjob, hl⟩ | ⟨m₀, c, resp, fx, todo, hm₀, hjob, hcall, hc, hstage, rfl⟩
  · rw [← hjob]
    exact hq.held r m₀ hm₀ l hl
  · -- the fixture is the next one, and the call was for it
    rw [← hjob]
    have hplan := (hr.sound hm₀).planned (by rw [hstage]; rfl)
    rw [hstage] at hplan
    refine ⟨fx, ?_, ?_⟩
    · have hhead := congrArg List.head? hplan
      rwa [List.head?_drop] at hhead
    · cases hq.taking r m₀ fx todo c hm₀ hstage hcall with
      | granted hc' hg =>
        cases hc.symm.trans hc'
        exact hg
      | requested hc' | serving hc' | refused hc' | done hc' => cases hc.symm.trans hc'

theorem Runs.requested (hr : Runs H h D) (hf : FreshIds (served h)) : Requested h D := by
  refine Machine.Run.invariant (served_hereditary freshIds_hereditary) (I := Requested) ?_ ?_ hr hf
  · rintro _ ⟨files, rfl⟩
    exact requested_start files
  · intro h D e o D' hr hf hq hst
    have hf₀ := served_hereditary freshIds_hereditary _ _ hf
    exact ⟨fun r m fx todo c hm hs hc => requested_taking hr hf₀ (step_cases hst) hq hm hs hc,
      fun r m hm l hl => requested_held hr hf₀ hst hq hm hl⟩

end RulesSystemtest.Deployment
