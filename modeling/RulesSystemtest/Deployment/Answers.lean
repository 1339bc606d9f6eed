import RulesSystemtest.Deployment.Steps
import RulesSystemtest.Runner.Hosts

/-! What the runners of a deployment are told. For each runner, a run of the deployment is
a run of that runner, and the replies that it gets to its calls of `TakeLease` are what the
coordinator answered to these calls, in their order, but for the calls that fail on the
way. -/

namespace RulesSystemtest.Deployment

open Library Runner

variable {H : Host} {D D' : State} {e : Event} {o : Obs} {h : History} {r : RunnerId} {m : Member} {c : CallId}
  {i : Input} {rpc : Rpc} {t : List Runner.Event} {L : Local}

/-! ### Replies on their way -/

/-- The coordinator answered the call so. -/
def Replied (h : RulesSystemtest.History) (c : CallId) : Except RulesSystemtest.Status TakeLeaseResponse → Prop
  | .ok resp => ∃ t ∈ h, ∃ id g, t.obs = .granted id g resp ∧ g.call = c
  | .error s => ∃ t ∈ h, t.obs = .refused c s

theorem Replied.later {h : RulesSystemtest.History} {reply : Except RulesSystemtest.Status TakeLeaseResponse}
    (hreply : Replied h c reply) (t : RulesSystemtest.Moment) : Replied (t :: h) c reply := by
  cases reply with
  | ok resp => exact hreply.imp fun u => And.imp_left (List.mem_cons_of_mem t)
  | error s => exact hreply.imp fun u => And.imp_left (List.mem_cons_of_mem t)

theorem Replied.step {reply : Except RulesSystemtest.Status TakeLeaseResponse} (hreply : Replied (served h) c reply)
    (t : Moment) : Replied (served (t :: h)) c reply := by
  unfold served at hreply ⊢
  rw [List.filterMap_cons]
  split
  · exact hreply
  · exact hreply.later _

/-- The replies on their way are the coordinator's. -/
theorem replied_insert {rpcs : HashMap CallId Rpc} {h' : RulesSystemtest.History}
    (ih : ∀ c reply, rpcs.lookup c = some (.took reply) → Replied h' c reply)
    (hrpc : ∀ reply, rpc = .took reply → Replied h' c reply) (c' : CallId)
    (reply : Except RulesSystemtest.Status TakeLeaseResponse) (hc : (rpcs.insert c rpc).lookup c' = some (.took reply)) :
    Replied h' c' reply := by
  rw [HashMap.lookup_insert] at hc
  split at hc
  · next heq => exact heq ▸ hrpc reply (Option.some.inj hc)
  · exact ih c' reply hc

/-- What the main thread of a runner sends is a request. -/
theorem nextCall_request {J : Job} {L : Local} {i : Input} {rpc : Rpc} (h : nextCall J L = some (i, rpc)) :
    rpc ≠ .serving ∧ (∀ reply, rpc ≠ .took reply) ∧ ∀ reply, i ≠ .took reply := by
  unfold nextCall at h
  split at h
  · cases h
    exact ⟨nofun, nofun, nofun⟩
  · cases h
    exact ⟨nofun, nofun, nofun⟩
  · obtain ⟨lease, -, heq⟩ := Option.map_eq_some_iff.1 h
    cases heq
    exact ⟨nofun, nofun, nofun⟩
  · cases h

theorem replied_step (hst : Step H D e o D')
    (ih : ∀ c reply, D.rpcs.lookup c = some (.took reply) → Replied (served h) c reply) :
    ∀ c reply, D'.rpcs.lookup c = some (.took reply) → Replied (served (⟨D, e, o, D'⟩ :: h)) c reply := by
  have hlater := fun c reply hc => (ih c reply hc).step ⟨D, e, o, D'⟩
  cases hst with
  | start | act | crash => exact hlater
  | send _ _ hn => exact replied_insert hlater fun reply heq => absurd heq ((nextCall_request hn).2.1 reply)
  | receive | beat | lose => exact replied_insert hlater nofun
  | @arrive c rpc e o w _ he hst =>
    refine replied_insert hlater fun reply heq => ?_
    cases rpc <;> cases he <;> cases hst <;> cases heq
    exact ⟨_, List.mem_cons_self .., rfl⟩
  | @serve e o w =>
    cases o with
    | granted id g resp =>
      refine replied_insert hlater fun reply heq => ?_
      cases heq
      exact ⟨_, List.mem_cons_self .., id, g, rfl, rfl⟩
    | refused c s =>
      refine replied_insert hlater fun reply heq => ?_
      cases heq
      exact ⟨_, List.mem_cons_self .., rfl⟩
    | cancelled | panicked => exact replied_insert hlater nofun
    | _ => exact hlater

theorem Runs.replied (hr : Runs H h D) {reply : Except RulesSystemtest.Status TakeLeaseResponse} (c : CallId)
    (hc : D.rpcs.lookup c = some (.took reply)) : Replied (served h) c reply := by
  induction hr generalizing c reply with
  | init hD =>
    obtain ⟨files, rfl⟩ := hD
    simp [State.start] at hc
  | step hr hst ih => exact replied_step (step_cases hst) (fun c reply => ih c) c reply hc

/-! ### What a runner does and asks -/

/-- What the runner `r` did since it started. -/
def didBy (r : RunnerId) : History → List Runner.Event
  | [] => []
  | t :: h =>
    match t.obs with
    | .started r' => if r' = r then [] else didBy r h
    | .did r' evs => if r' = r then didBy r h ++ evs else didBy r h
    | _ => didBy r h

/-- The call of `TakeLease` that a step makes, if any. -/
def Moment.leaseCall (t : Moment) : List CallId :=
  match t.event, t.obs with
  | .send _ c, .did _ [.takeLease _ _] => [c]
  | _, _ => []

/-- The calls of `TakeLease` that the runner `r` made since it started, in their order. -/
def leaseCalls (r : RunnerId) : History → List CallId
  | [] => []
  | t :: h =>
    match t.obs with
    | .started r' => if r' = r then [] else leaseCalls r h
    | .did r' _ => if r' = r then leaseCalls r h ++ t.leaseCall else leaseCalls r h
    | _ => leaseCalls r h

/-- How a call of `TakeLease` ended for the runner `r`: with the coordinator's answer, or
without one. -/
inductive CallEnd (h : History) (r : RunnerId) (c : CallId) : Except String TakeLeaseResponse → Prop where
  | replied {reply : Except RulesSystemtest.Status TakeLeaseResponse} (hreply : Replied (served h) c reply) :
      CallEnd h r c (reply.mapError rpcError)
  | failed {t : Moment} {m : Member} {err : String} (ht : t ∈ h) (he : t.event = .fail r err)
      (hm : t.pre.runners.lookup r = some m) (hc : m.call = some c) : CallEnd h r c (.error err)

theorem CallEnd.step {reply : Except String TakeLeaseResponse} (hend : CallEnd h r c reply) (t : Moment) :
    CallEnd (t :: h) r c reply := by
  cases hend with
  | replied hreply => exact .replied (hreply.step t)
  | failed ht he hm hc => exact .failed (List.mem_cons_of_mem t ht) he hm hc

/-! ### The runs of the runners -/

/-- The replies that a runner got, which are the ends of its calls. The last call has none
while the runner waits for it. -/
inductive Told (h : History) (r : RunnerId) (m : Member) (replies : List (Except String TakeLeaseResponse)) : Prop where
  | waiting {cs : List CallId} {c : CallId} {fx : ResolvedFixture} {todo : List ResolvedFixture}
      (hs : m.locals.stage = .taking fx todo) (hc : m.call = some c) (hcalls : leaseCalls r h = cs ++ [c])
      (hends : List.Forall₂ (CallEnd h r) cs replies)
  | idle (hs : ∀ fx todo, m.locals.stage ≠ .taking fx todo) (hends : List.Forall₂ (CallEnd h r) (leaseCalls r h) replies)

/-- The history of a runner is a run of it, and its replies are the ends of its calls. -/
def Ran (h : History) (r : RunnerId) (m : Member) : Prop :=
  ∃ k, (runner m.job).Run k m.locals ∧ eventsOf k = didBy r h ∧ Told h r m (takeLeaseReplies k)

/-- A step of others. -/
theorem Ran.frame (hran : Ran h r m) {t : Moment} (hdid : didBy r (t :: h) = didBy r h)
    (hcalls : leaseCalls r (t :: h) = leaseCalls r h) : Ran (t :: h) r m := by
  obtain ⟨k, hrun, hevents, htold⟩ := hran
  refine ⟨k, hrun, hevents.trans hdid.symm, ?_⟩
  cases htold with
  | waiting hs hc hcs hends => exact .waiting hs hc (hcalls.trans hcs) (hends.imp fun _ _ hend => hend.step t)
  | idle hs hends => exact .idle hs (hcalls ▸ hends.imp fun _ _ hend => hend.step t)

/-- Only a call makes the runner wait for a lease. -/
theorem taking_moves {J : Job} {L L' : Local} (h : Moves J L i t L') {fx : ResolvedFixture} {todo : List ResolvedFixture}
    (hs : L'.stage = .taking fx todo) : i = .call ∧ L.stage = .leasing (fx :: todo) := by
  cases h with
  | call hstage =>
    obtain ⟨rfl, rfl⟩ := Stage.taking.inj hs
    exact ⟨rfl, hstage⟩
  | took _ _ hsettled | decided _ _ hsettled => cases hsettled <;> cases hs
  | release hstage _ => cases hstage.symm.trans hs
  | _ => cases hs

/-- A call of `TakeLease` is waited for. -/
theorem Ran.call (hran : Ran h r m) {fx : ResolvedFixture} {todo : List ResolvedFixture}
    (hs : m.locals.stage = .leasing (fx :: todo)) (hst : m.locals.step m.job .call = some (t, L)) {u : Moment}
    (hdid : didBy r (u :: h) = didBy r h ++ t) (hcalls : leaseCalls r (u :: h) = leaseCalls r h ++ [c]) :
    Ran (u :: h) r ⟨m.job, L, some c⟩ := by
  obtain ⟨k, hrun, hevents, htold⟩ := hran
  refine ⟨_, .step hrun hst, by rw [hdid, ← hevents]; rfl, ?_⟩
  cases htold with
  | waiting hs' => cases hs.symm.trans hs'
  | idle _ hends =>
    cases (step_call hs).symm.trans hst
    exact .waiting rfl rfl hcalls (hends.imp fun _ _ hend => hend.step u)

/-- The call that was waited for ends. -/
theorem Ran.took (hran : Ran h r m) {reply : Except String TakeLeaseResponse} {call : Option CallId}
    (hst : m.locals.step m.job (.took reply) = some (t, L)) {u : Moment}
    (hend : ∀ c, m.call = some c → CallEnd (u :: h) r c reply) (hdid : didBy r (u :: h) = didBy r h ++ t)
    (hcalls : leaseCalls r (u :: h) = leaseCalls r h) : Ran (u :: h) r ⟨m.job, L, call⟩ := by
  obtain ⟨k, hrun, hevents, htold⟩ := hran
  refine ⟨_, .step hrun hst, by rw [hdid, ← hevents]; rfl, .idle ?_ ?_⟩
  · intro fx todo hs
    cases (taking_moves (moves_of_step hst) hs).1
  · cases htold with
    | waiting hs hc hcs hends =>
      rw [hcalls, hcs]
      exact List.rel_append (hends.imp fun _ _ hend => hend.step u) (.cons (hend _ hc) .nil)
    | idle hs =>
      exfalso
      rcases takeLeaseReplies_cons k hst with ⟨_, fx, todo, -, hstage, -⟩ | ⟨-, heq⟩
      · exact hs fx todo hstage
      · simpa [takeLeaseReplies] using congrArg List.length heq

/-- Any other step of the runner. -/
theorem Ran.other (hran : Ran h r m) {call : Option CallId} (hst : m.locals.step m.job i = some (t, L)) {u : Moment}
    (hcall : i ≠ .call) (htook : ∀ reply, i ≠ .took reply) (hdid : didBy r (u :: h) = didBy r h ++ t)
    (hcalls : leaseCalls r (u :: h) = leaseCalls r h) : Ran (u :: h) r ⟨m.job, L, call⟩ := by
  obtain ⟨k, hrun, hevents, htold⟩ := hran
  refine ⟨_, .step hrun hst, by rw [hdid, ← hevents]; rfl, .idle ?_ ?_⟩
  · intro fx todo hs
    exact hcall (taking_moves (moves_of_step hst) hs).1
  · rcases takeLeaseReplies_cons k hst with ⟨reply, _, _, heq, -, -⟩ | ⟨hs, heq⟩
    · exact absurd heq (htook reply)
    · rw [heq, hcalls]
      cases htold with
      | waiting hs' => exact absurd hs' (hs _ _)
      | idle _ hends => exact hends.imp fun _ _ hend => hend.step u

/-! ### Steps of a deployment -/

theorem leaseCalls_did (t : List Runner.Event) :
    leaseCalls r (⟨D, e, .did r t, D'⟩ :: h) = leaseCalls r h ++ Moment.leaseCall ⟨D, e, .did r t, D'⟩ := by
  simp [leaseCalls]

theorem didBy_did (t : List Runner.Event) : didBy r (⟨D, e, .did r t, D'⟩ :: h) = didBy r h ++ t := by
  simp [didBy]

theorem leaseCalls_quiet (hst : m.locals.step m.job i = some (t, L)) (hi : i ≠ .call) :
    leaseCalls r (⟨D, e, .did r t, D'⟩ :: h) = leaseCalls r h := by
  have hnone : Moment.leaseCall ⟨D, e, .did r t, D'⟩ = [] := by
    unfold Moment.leaseCall
    split
    · next heq =>
      obtain ⟨-, rfl⟩ := Obs.did.inj heq
      exact absurd (takeLease_moves (moves_of_step hst) (List.mem_singleton_self _)).1 hi
    · rfl
  rw [leaseCalls_did, hnone, List.append_nil]

theorem ran_send (hran : Ran h r m) (hn : nextCall m.job m.locals = some (i, rpc))
    (hst : m.locals.step m.job i = some (t, L)) :
    Ran (⟨D, .send r c, .did r t, D'⟩ :: h) r ⟨m.job, L, some c⟩ := by
  unfold nextCall at hn
  split at hn
  · next hs =>
    cases hn
    refine hran.call hs hst (didBy_did t) ?_
    cases (step_call hs).symm.trans hst
    exact leaseCalls_did _
  · cases hn
    exact hran.other hst nofun nofun (didBy_did t) (leaseCalls_quiet hst nofun)
  · obtain ⟨lease, -, heq⟩ := Option.map_eq_some_iff.1 hn
    cases heq
    exact hran.other hst nofun nofun (didBy_did t) (leaseCalls_quiet hst nofun)
  · cases hn

theorem ran_receive (hran : Ran h r m) (hcall : m.call = some c) (hi : rpc.input? = some i)
    (hreplied : ∀ reply, rpc = .took reply → Replied (served h) c reply) (hst : m.locals.step m.job i = some (t, L)) :
    Ran (⟨D, e, .did r t, D'⟩ :: h) r ⟨m.job, L, none⟩ := by
  cases rpc with
  | took reply =>
    cases hi
    refine hran.took hst ?_ (didBy_did t) (leaseCalls_quiet hst nofun)
    intro c' hc'
    obtain rfl := Option.some.inj (hcall.symm.trans hc')
    exact .replied ((hreplied reply rfl).step _)
  | told reply =>
    cases hi
    exact hran.other hst nofun nofun (didBy_did t) (leaseCalls_quiet hst nofun)
  | _ => cases hi

theorem ran_act (hran : Ran h r m) (hm : D.runners.lookup r = some m) (hi : Alone r e i)
    (hst : m.locals.step m.job i = some (t, L)) : Ran (⟨D, e, .did r t, D'⟩ :: h) r ⟨m.job, L, none⟩ := by
  cases hi with
  | untaken err =>
    refine hran.took hst ?_ (didBy_did t) (leaseCalls_quiet hst nofun)
    exact fun c hc => .failed (List.mem_cons_self ..) rfl hm hc
  | _ => exact hran.other hst nofun nofun (didBy_did t) (leaseCalls_quiet hst nofun)

/-- What a runner does, and nobody else. -/
theorem ran_did {r' : RunnerId} {m' : Member} (hD : D'.runners = D.runners.insert r' m')
    (ih : ∀ m, D.runners.lookup r = some m → Ran h r m) (hself : Ran (⟨D, e, .did r' t, D'⟩ :: h) r' m')
    (hm : D'.runners.lookup r = some m) : Ran (⟨D, e, .did r' t, D'⟩ :: h) r m := by
  rw [hD, HashMap.lookup_insert] at hm
  by_cases hr : r = r'
  · rw [if_pos hr] at hm
    obtain rfl := Option.some.inj hm
    exact hr ▸ hself
  · rw [if_neg hr] at hm
    exact (ih m hm).frame (by simp [didBy, Ne.symm hr]) (by simp [leaseCalls, Ne.symm hr])

theorem ran_step (hst : Step H D e o D')
    (hreplied : ∀ c reply, D.rpcs.lookup c = some (.took reply) → Replied (served h) c reply)
    (ih : ∀ r m, D.runners.lookup r = some m → Ran h r m) (hm : D'.runners.lookup r = some m) :
    Ran (⟨D, e, o, D'⟩ :: h) r m := by
  cases hst with
  | @start r' J _ =>
    simp only [HashMap.lookup_insert] at hm
    by_cases hr : r = r'
    · rw [if_pos hr] at hm
      obtain rfl := Option.some.inj hm
      refine ⟨[], .init rfl, by simp [didBy, hr, eventsOf], .idle nofun ?_⟩
      simp [leaseCalls, hr, takeLeaseReplies]
    · rw [if_neg hr] at hm
      exact (ih r m hm).frame (by simp [didBy, Ne.symm hr]) (by simp [leaseCalls, Ne.symm hr])
  | send hm' _ hn hst => exact ran_did rfl (ih r) (ran_send (ih _ _ hm') hn hst) hm
  | receive hm' hcall hc hi hst =>
    refine ran_did rfl (ih r) (ran_receive (ih _ _ hm') hcall hi ?_ hst) hm
    rintro reply rfl
    exact hreplied _ reply hc
  | act hm' hi hst => exact ran_did rfl (ih r) (ran_act (ih _ _ hm') hm' hi hst) hm
  | @crash r' =>
    simp only [HashMap.lookup_erase] at hm
    split at hm
    · cases hm
    · exact (ih r m hm).frame rfl rfl
  | _ => exact (ih r m hm).frame rfl rfl

theorem Runs.ran (hr : Runs H h D) (hm : D.runners.lookup r = some m) : Ran h r m := by
  induction hr generalizing r m with
  | init hD =>
    obtain ⟨files, rfl⟩ := hD
    simp [State.start] at hm
  | step hr hst ih => exact ran_step (step_cases hst) (fun c _ => Runs.replied hr c) (fun _ _ => ih) hm

theorem Runs.sound (hr : Runs H h D) (hm : D.runners.lookup r = some m) : m.locals.Sound m.job := by
  obtain ⟨k, hrun, -⟩ := hr.ran hm
  exact sound_run hrun

end RulesSystemtest.Deployment
