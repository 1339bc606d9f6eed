import RulesSystemtest.Deployment.Requests

/-! The runners of a deployment. Whatever the others do, what a runner did once it returned
is a call of `execute` on its host, with the answers of the coordinator to its calls. With
this coordinator none of the answers is one to wait for, so a runner never polls. -/

namespace RulesSystemtest.Deployment

open Library Runner

variable {H : Host} {D D' : State} {e : Event} {o : Obs} {h : History} {r : RunnerId} {m : Member} {c : CallId}

/-! ### Leases are granted at once -/

/-- A call that ends with a lease was granted it. -/
theorem CallEnd.granted {resp : TakeLeaseResponse} (hend : CallEnd h r c (.ok resp)) :
    Replied (served h) c (.ok resp) := by
  generalize hok : Except.ok resp = outcome at hend
  cases hend with
  | @replied reply hreply =>
    cases reply with
    | ok resp' =>
      obtain rfl := Except.ok.inj hok
      exact hreply
    | error s => cases hok
  | failed => cases hok

theorem Replied.succeeded {h : RulesSystemtest.History} {w : RulesSystemtest.World} (hr : RulesSystemtest.Runs H h w)
    {resp : TakeLeaseResponse} (hreply : Replied h c (.ok resp)) : resp.status = succeeded := by
  obtain ⟨⟨pre, e, o, post⟩, ht, id, g, rfl, -⟩ := hreply
  have hst : RulesSystemtest.Step H pre e (.granted id g resp) post := RulesSystemtest.step_cases (hr.mem ht)
  cases hst with
  | attach => rfl
  | insert => rfl

/-! ### No polling -/

/-- No status is asked for. -/
def Unasked (t : List Runner.Event) : Prop := ∀ n leaseID, .status n leaseID ∉ t

theorem unasked_did (hD : Wired D) {t : List Runner.Event} (hst : Step H D e (.did r t) D') : Unasked t := by
  intro n leaseID ht
  cases hst with
  | send hm _ _ hst | receive hm _ _ _ hst | act hm _ hst =>
    have hpolls := status_moves (moves_of_step hst) ht
    rw [hD.unpolled _ _ hm] at hpolls
    cases hpolls

theorem Runs.unasked (hr : Runs H h D) (r : RunnerId) : Unasked (didBy r h) := by
  induction hr with
  | init _ => exact fun _ _ => List.not_mem_nil
  | @step h D D' e o hr hst ih =>
    cases o with
    | silent | moved => exact ih
    | started r' =>
      simp only [didBy]
      split
      · exact fun _ _ => List.not_mem_nil
      · exact ih
    | did r' t =>
      simp only [didBy]
      split
      · intro n leaseID hev
        rcases List.mem_append.1 hev with hev | hev
        · exact ih n leaseID hev
        · exact unasked_did (Runs.wired hr) (step_cases hst) n leaseID hev
      · exact ih

/-! ### A runner among others -/

/-- The world answers the `n`-th call of `TakeLease` of the runner `r` as it ended in the
deployment. If it ended with a lease, the coordinator granted it, and at once. -/
structure SameAnswer (h : History) (r : RunnerId) (W : Runner.World) (n : ℕ) (c : CallId) : Prop where
  call : (leaseCalls r h)[n]? = some c
  reply : CallEnd h r c (W.lease n).takeLease
  granted : ∀ resp, (W.lease n).takeLease = .ok resp → Replied (served h) c (.ok resp) ∧ resp.status = succeeded

/-- The calls of a runner that waits for none are answered by a host that feeds it. -/
theorem sameAnswer_of_fed (hr : Runs H h D) {k : List (Transition Local Input (List Runner.Event))} {W : Runner.World}
    (hrun : (runner m.job).Run k m.locals) (hfed : Along (Fed W) k) (htold : Told h r m (takeLeaseReplies k))
    (hidle : ∀ fx todo, m.locals.stage ≠ .taking fx todo) {n : ℕ} {req : TakeLeaseRequest}
    (hev : .takeLease n req ∈ eventsOf k) : ∃ c, SameAnswer h r W n c := by
  have hn : n < (takeLeaseReplies k).length := by
    rcases takeLease_replied hrun hev with hn | ⟨-, fx, todo, hs⟩
    · exact hn
    · exact absurd hs (hidle fx todo)
  cases htold with
  | waiting hs => exact absurd hs (hidle _ _)
  | idle _ hends =>
    have hn' : n < (leaseCalls r h).length := hends.length_eq ▸ hn
    have hend := (List.forall₂_iff_get.1 hends).2 n hn' hn
    have hreply : (takeLeaseReplies k)[n]? = some (W.lease n).takeLease := by
      rw [takeLeaseReplies_of_fed hrun hfed]
      simp [hn]
    rw [List.get_eq_getElem, List.get_eq_getElem, (List.getElem?_eq_some_iff.1 hreply).2] at hend
    refine ⟨_, List.getElem?_eq_getElem hn', hend, fun resp hresp => ?_⟩
    rw [hresp] at hend
    exact ⟨hend.granted, hend.granted.succeeded hr.coordinator⟩

/-- What a runner did until it returned is what `execute` does, and returns, on its host with
the coordinator's answers to its calls. It was granted every lease at once, and never asked
for a status. -/
theorem deployed_runner_executes (hr : Runs H h D) (hm : D.runners.lookup r = some m)
    {result : Int × Option String} (hs : m.locals.stage = .returned result) {W : Runner.World} {path : String}
    (hsetup : setup W path = .ok m.job.setup) (hW : jobOf W m.job.setup = m.job) :
    ∃ W', SameHost W W' ∧ (execute W' path).result = result ∧ untimed (execute W' path).trace = didBy r h ∧
      (∀ n req, .takeLease n req ∈ didBy r h → ∃ c, SameAnswer h r W' n c) ∧
      ∀ n leaseID, .status n leaseID ∉ didBy r h := by
  obtain ⟨k, hrun, hevents, htold⟩ := hr.ran hm
  obtain ⟨W', hsame, hfed, -⟩ := exists_fed hrun W (by rw [Ready, hs]; trivial)
  have hreturns : Returns W' m.job result (didBy r h) := ⟨k, m.locals, hrun, hfed, hs, hevents⟩
  have hexecute := returns_of_execute ((hsame.setup path).trans hsetup) ((hsame.jobOf _).trans hW)
  obtain ⟨hresult, htrace⟩ := returns_unique hexecute hreturns
  have hidle : ∀ fx todo, m.locals.stage ≠ .taking fx todo := by
    rw [hs]
    rintro fx todo ⟨⟩
  refine ⟨W', hsame, hresult, htrace, fun n req hev => ?_, hr.unasked r⟩
  exact sameAnswer_of_fed hr hrun hfed htold hidle (hevents ▸ hev)

/-- The host of a runner in the sample deployment. -/
def sampleWorld (implId : String) : Runner.World where
  sources :=
    { sampleSources [⟨"cache", "redis"⟩] with
      rlocation := fun path => .ok (if path = "plugin" then "/plugin" else "/runfiles/" ++ path)
      unmarshalDescription := fun _ => .ok { sampleDesc implId with plugin := some (.binaryPath "plugin") } }
  process := (Runner.sampleWorld [] (fun _ => sampleLease ⟨succeeded, "l0", ∅, []⟩ []) (.ran 0 (.exited 0))).process
  ensureCoordinatorRunning _ _ := .ok "/tmp/systemtest/0/server.sock"
  dialCoordinator _ := .ok ()
  lease _ := sampleLease ⟨succeeded, "l0", ∅, []⟩ []
  unmarshalPorts := unmarshal
  environ := []
  test := .ran 0 (.exited 0)
  sink := ⟨"", fun _ => .ok [], fun _ _ => .ok ()⟩

set_option maxRecDepth 4000 in
/-- One runner is done with its one test, while another one's runs. -/
theorem deployed_runner_executes_sample :
    let run := sampleRun (sampleTest 0 0 "redis" (hexEncode sampleDigest) "l0" "6379" ++
      sampleTest 1 1 "mysql" "bob" "l1" "3306" ++ sampleEnd 0 2)
    ∃ W, SameHost (sampleWorld "redis") W ∧ (execute W "_main/it.run_config.json").result = (0, none) ∧
      untimed (execute W "_main/it.run_config.json").trace = didBy 0 run.1 ∧ SameAnswer run.1 0 W 0 0 := by
  intro run
  have hlookup : ∃ m, run.2.runners.lookup 0 = some m ∧ m.job = sampleJob "redis" (hexEncode sampleDigest) ∧
      m.locals.stage = .returned (0, none) := ⟨_, rfl, rfl, rfl⟩
  obtain ⟨m, hm, hjob, hs⟩ := hlookup
  have hsetup : setup (sampleWorld "redis") "_main/it.run_config.json" = .ok m.job.setup := by
    rw [hjob]
    rfl
  have hW : jobOf (sampleWorld "redis") m.job.setup = m.job := by
    rw [hjob]
    rfl
  obtain ⟨W, hsame, hresult, htrace, hanswers, -⟩ := deployed_runner_executes (sampleRun_runs _) hm hs hsetup hW
  have hasked : (didBy 0 run.1).head? = some (.takeLease 0 (sampleRequest "redis" (hexEncode sampleDigest))) := rfl
  obtain ⟨c, hc⟩ := hanswers 0 _ (List.mem_of_head? hasked)
  have hcall : (leaseCalls 0 run.1)[0]? = some 0 := rfl
  obtain rfl := Option.some.inj (hcall.symm.trans hc.call)
  exact ⟨W, hsame, hresult, htrace, hc⟩

end RulesSystemtest.Deployment
