import RulesSystemtest.Runner.Untimed

/-! The runner step by step agrees with `execute`. The answers of a host are fed to the
steps one by one, through the polling, the loop over the fixtures, the test and the
releases; they leave no choice, so what the steps return and do is what `execute` returns
and does on this host. Whatever inputs the steps get, they are the answers of some host. -/

namespace RulesSystemtest.Runner

open Library

variable {J : Job} {W : World} {L L' : Local} {i : Input} {t u : List Event} {fx : ResolvedFixture}
  {todo : List ResolvedFixture} {leaseID : String} {k : ℕ}

/-! ### The answers of a host -/

def TestAnswer.failure? : TestAnswer → Option String
  | .notStarted err => some err
  | .ran _ _ => none

/-- The input is what a host answers, if `k` calls of `Status` were answered for the lease
that is waited for. -/
def Feeds (W : World) (L : Local) (k : ℕ) : Input → Prop
  | .took reply => (W.lease L.next).takeLease = reply
  | .tick => k < (W.lease L.next).polls.length
  | .told reply => ∃ answer, (W.lease L.next).polls[k]? = some answer ∧ answer.reply = reply
  | .expire => (W.lease L.next).polls.length ≤ k
  | .start failure => W.test.failure? = failure
  | .ended how took => W.test = .ran took how
  | .call | .release | .exit => True

/-- How many calls of `Status` are answered after an input. -/
def repliesAfter (k : ℕ) (i : Input) (L' : Local) : ℕ :=
  if L'.stage.polls then
    match i with
    | .told _ => k + 1
    | _ => k
  else 0

def replies : List (Transition Local Input (List Event)) → ℕ
  | [] => 0
  | tr :: h => repliesAfter (replies h) tr.event tr.post

/-- Every input of the history is what the host answers. -/
def Fed (W : World) (h : List (Transition Local Input (List Event))) (tr : Transition Local Input (List Event)) : Prop :=
  Feeds W tr.pre (replies h) tr.event

/-- The inputs that a stage waits for. -/
def Stage.awaits (leases : List ActiveLease) (i : Input) : Stage → Prop
  | .leasing [] => ∃ failure, i = .start failure
  | .leasing (_ :: _) => i = .call
  | .taking _ _ => ∃ reply, i = .took reply
  | .polling _ _ _ => i = .tick ∨ i = .expire
  | .asking _ _ _ => ∃ reply, i = .told reply
  | .testing => ∃ how took, i = .ended how took
  | .releasing _ => i = .release ∧ leases ≠ [] ∨ i = .exit ∧ leases = []
  | .returned _ => False

theorem awaits_moves (h : Moves J L i t L') : L.stage.awaits L.leases i := by
  cases h with
  | call hs | expire hs | tick hs =>
    rw [hs]
    simp [Stage.awaits]
  | release hs hl | exit hs hl =>
    rw [hs, hl]
    simp [Stage.awaits]
  | untaken hs | pending hs | took hs | untold hs | undecided hs | decided hs | notStarted hs | started hs =>
    rw [hs]
    exact ⟨_, rfl⟩
  | ended hs =>
    rw [hs]
    exact ⟨_, _, rfl⟩

/-- The answers of a host leave no choice. -/
theorem feeds_unique {i' : Input} {L₁ L₂ : Local} (h : L.step J i = some (t, L₁)) (h' : L.step J i' = some (u, L₂))
    (hi : Feeds W L k i) (hi' : Feeds W L k i') : i = i' := by
  have ha := awaits_moves (moves_of_step h)
  have ha' := awaits_moves (moves_of_step h')
  cases hs : L.stage with
  | leasing todo =>
    rw [hs] at ha ha'
    cases todo with
    | nil =>
      obtain ⟨failure, rfl⟩ := ha
      obtain ⟨failure', rfl⟩ := ha'
      exact congrArg _ (hi.symm.trans hi')
    | cons fx todo => exact ha.trans ha'.symm
  | taking fx todo =>
    rw [hs] at ha ha'
    obtain ⟨reply, rfl⟩ := ha
    obtain ⟨reply', rfl⟩ := ha'
    exact congrArg _ (hi.symm.trans hi')
  | polling fx todo leaseID =>
    rw [hs] at ha ha'
    rcases ha with rfl | rfl <;> rcases ha' with rfl | rfl
    · rfl
    · exact absurd hi (Nat.not_lt.2 hi')
    · exact absurd hi' (Nat.not_lt.2 hi)
    · rfl
  | asking fx todo leaseID =>
    rw [hs] at ha ha'
    obtain ⟨reply, rfl⟩ := ha
    obtain ⟨reply', rfl⟩ := ha'
    obtain ⟨answer, hanswer, rfl⟩ := hi
    obtain ⟨answer', hanswer', rfl⟩ := hi'
    rw [Option.some.inj (hanswer.symm.trans hanswer')]
  | testing =>
    rw [hs] at ha ha'
    obtain ⟨how, took, rfl⟩ := ha
    obtain ⟨how', took', rfl⟩ := ha'
    obtain ⟨rfl, rfl⟩ := TestAnswer.ran.inj (Eq.trans (Eq.symm hi) hi')
    rfl
  | releasing result =>
    rw [hs] at ha ha'
    rcases ha with ⟨rfl, hl⟩ | ⟨rfl, hl⟩ <;> rcases ha' with ⟨rfl, hl'⟩ | ⟨rfl, hl'⟩
    · rfl
    · exact absurd hl' hl
    · exact absurd hl hl'
    · rfl
  | returned result =>
    rw [hs] at ha
    exact ha.elim

theorem step_returned {result : Int × Option String} (hs : L.stage = .returned result) (i : Input) :
    L.step J i = none := by
  cases hst : L.step J i with
  | none => rfl
  | some s =>
    have ha := awaits_moves (moves_of_step hst)
    rw [hs] at ha
    exact ha.elim

/-! ### Feeding the answers of a host -/

/-- A run that is fed by the host, and does this, comes to this state. -/
def ReachesAt (W : World) (J : Job) (k : ℕ) (t : List Event) (L : Local) : Prop :=
  ∃ h, (runner J).Run h L ∧ Along (Fed W) h ∧ replies h = k ∧ eventsOf h = t

def Reaches (W : World) (J : Job) (t : List Event) (L : Local) : Prop := ∃ k, ReachesAt W J k t L

theorem ReachesAt.step (h : ReachesAt W J k t L) (hst : L.step J i = some (u, L')) (hi : Feeds W L k i) :
    ReachesAt W J (repliesAfter k i L') (t ++ u) L' := by
  obtain ⟨h, hr, hfed, rfl, rfl⟩ := h
  exact ⟨_, .step hr hst, ⟨hi, hfed⟩, rfl, rfl⟩

theorem Reaches.step (h : Reaches W J t L) (hst : L.step J i = some (u, L')) (hi : ∀ k, Feeds W L k i) :
    Reaches W J (t ++ u) L' := by
  obtain ⟨k, h⟩ := h
  exact ⟨_, h.step hst (hi k)⟩

/-- The calls are counted from the reply to `TakeLease` on. -/
theorem ReachesAt.zero (h : ReachesAt W J k t L) (hp : L.stage.polls = false) : k = 0 := by
  obtain ⟨h, hr, -, rfl, -⟩ := h
  cases hr with
  | init => rfl
  | step => simp [replies, repliesAfter, hp]

theorem step_call (hs : L.stage = .leasing (fx :: todo)) :
    L.step J .call = some ([.takeLease L.next (takeLeaseRequest J fx)], { L with stage := .taking fx todo }) := by
  simp only [Local.step, hs]

theorem step_start (failure : Option String) (hs : L.stage = .leasing []) :
    L.step J (.start failure) = some ((stepStart J L failure).1, (stepStart J L failure).2) := by
  simp [Local.step, hs]

theorem step_ended (how : TestEnd) (took : ℕ) (hs : L.stage = .testing) :
    L.step J (.ended how took) = some ((stepEnded J L took how).1, (stepEnded J L took how).2) := by
  simp [Local.step, hs]

@[simp] theorem next_mk {stage : Stage} {leases : List ActiveLease} {env : Env} :
    (Local.mk stage leases env).next = leases.length := rfl

/-- The stage in which a lease is decided makes no difference. -/
theorem settle_stage (stage stage' : Stage) (leases : List ActiveLease) (env : Env) (final : StatusResponse) :
    settle J ⟨stage, leases, env⟩ fx todo leaseID final = settle J ⟨stage', leases, env⟩ fx todo leaseID final := rfl

/-- The stage after the polling. -/
structure Polled (W : World) (J : Job) (L : Local) (fx : ResolvedFixture) (todo : List ResolvedFixture) (leaseID : String)
    (t : List Event) (polling : Logged (Except String StatusResponse)) : Prop where
  failed : ∀ e, polling.result = .error e → Reaches W J (t ++ polling.trace) (L.fail (waitingError fx e))
  decided : ∀ final, polling.result = .ok final →
    Reaches W J (t ++ polling.trace ++ (settle J L fx todo leaseID final).1) (settle J L fx todo leaseID final).2

theorem polled_of_reaches {leases : List ActiveLease} {env : Env}
    (h : ReachesAt W J k t ⟨.polling fx todo leaseID, leases, env⟩) {polls : List PollAnswer}
    (hpolls : (W.lease leases.length).polls.drop k = polls) (stage : Stage) :
    Polled W J ⟨stage, leases, env⟩ fx todo leaseID t (polled leases.length leaseID polls) := by
  induction polls generalizing k t with
  | nil =>
    constructor
    · rintro _ ⟨⟩
      exact ⟨_, h.step (i := .expire) rfl (List.drop_eq_nil_iff.1 hpolls)⟩
    · intro final hfinal
      cases hfinal
  | cons answer polls ih =>
    have hnext : (W.lease leases.length).polls[k]? = some answer := by
      rw [← List.head?_drop, hpolls]
      rfl
    have hasking := h.step (i := .tick) rfl (List.getElem?_eq_some_iff.1 hnext).1
    have htold := hasking.step (i := .told answer.reply) rfl ⟨answer, hnext, rfl⟩
    unfold polled heard
    cases hreply : answer.reply with
    | error e =>
      rw [hreply] at htold
      constructor
      · rintro _ ⟨⟩
        rw [List.append_nil] at htold
        exact ⟨_, htold⟩
      · intro final hfinal
        cases hfinal
    | ok resp =>
      rw [hreply] at htold
      by_cases hd : resp.status = succeeded ∨ resp.status = failed
      · simp only [hd, if_true] at htold ⊢
        constructor
        · intro e he
          cases he
        · rintro _ ⟨⟩
          rw [settle_stage stage (.asking fx todo leaseID)]
          exact ⟨_, by simpa using htold⟩
      · simp only [hd, if_false] at htold ⊢
        have htail : (W.lease leases.length).polls.drop (k + 1) = polls := by
          rw [← List.tail_drop, hpolls]
          rfl
        have hrest := ih htold htail
        constructor
        · intro e he
          simpa using hrest.failed e he
        · intro final hfinal
          simpa using hrest.decided final hfinal

/-- The stage after the loop over the fixtures. -/
structure Landed (W : World) (J : Job) (t : List Event) (l : Leasing) : Prop where
  failed : ∀ e, l.result = .error e → ∃ env, Reaches W J (t ++ untimed l.trace) ⟨.releasing (0, some e), l.leases, env⟩
  ready : ∀ env, l.result = .ok env → Reaches W J (t ++ untimed l.trace) ⟨.leasing [], l.leases, env⟩

theorem landed_error {leases : List ActiveLease} (env : Env) {e : String}
    (h : Reaches W J (t ++ untimed u) ⟨.releasing (0, some e), leases, env⟩) : Landed W J t ⟨leases, .error e, u⟩ := by
  constructor
  · rintro _ ⟨⟩
    exact ⟨env, h⟩
  · exact nofun

/-- What was done before the rest of the loop is put in front of it. -/
theorem Landed.after {l : Leasing} (h : Landed W J (t ++ untimed u) l) :
    Landed W J t ⟨l.leases, l.result, u ++ l.trace⟩ := by
  obtain ⟨hfailed, hready⟩ := h
  simp only [List.append_assoc, ← untimed_append] at hfailed hready
  exact ⟨hfailed, hready⟩

theorem landed_leaseRest {final : StatusResponse}
    (ih : ∀ t leases env, Reaches W J t ⟨.leasing todo, leases, env⟩ →
      Landed W J t (leaseFixtures W J.setup leases.length todo leases env))
    (h : Reaches W J (t ++ (settle J L fx todo leaseID final).1) (settle J L fx todo leaseID final).2) :
    Landed W J t (leaseRest W J L fx todo leaseID (.ok final)) := by
  generalize hsettle : settle J L fx todo leaseID final = settled at h
  have hsettled := settle_cases J L fx todo leaseID final
  rw [hsettle] at hsettled
  obtain ⟨evs, L'⟩ := settled
  cases hsettled with
  | refused hf =>
    rw [leaseRest, if_pos hf]
    exact landed_error _ h
  | unparsed hs hports =>
    simp only [leaseRest, hs, ne_eq, not_true_eq_false, if_false, hports]
    exact landed_error _ h
  | @leased portEnv hs hports =>
    simp only [leaseRest, hs, ne_eq, not_true_eq_false, if_false, hports]
    have hlanded := ih _ _ _ h
    rw [List.length_append] at hlanded
    exact hlanded.after (u := [.startKeepalive L.next leaseID, .portsParsed L.next portEnv])

theorem landed_leaseAwaited
    (ih : ∀ t leases env, Reaches W J t ⟨.leasing todo, leases, env⟩ →
      Landed W J t (leaseFixtures W J.setup leases.length todo leases env))
    {awaited : Logged (Except String StatusResponse)}
    (h : Polled W J L fx todo leaseID t ⟨awaited.result, untimed awaited.trace⟩) :
    Landed W J t (leaseAwaited W J L fx todo leaseID awaited) := by
  obtain ⟨result, u⟩ := awaited
  cases result with
  | error e => exact Landed.after (landed_error L.injectedEnv (by simpa [untimed, Local.fail] using h.failed e rfl))
  | ok final => exact Landed.after (landed_leaseRest ih (h.decided final rfl))

theorem landed_leaseTaken
    (ih : ∀ t leases env, Reaches W J t ⟨.leasing todo, leases, env⟩ →
      Landed W J t (leaseFixtures W J.setup leases.length todo leases env))
    {leases : List ActiveLease} {env : Env} (h : Reaches W J t ⟨.taking fx todo, leases, env⟩) :
    Landed W J t (leaseTaken W J ⟨.taking fx todo, leases, env⟩ fx todo) := by
  obtain ⟨k, h⟩ := h
  obtain rfl := h.zero rfl
  have htook := h.step (i := .took (W.lease leases.length).takeLease) rfl rfl
  unfold leaseTaken
  simp only [next_mk]
  cases htake : (W.lease leases.length).takeLease with
  | error e =>
    rw [htake] at htook
    exact landed_error _ ⟨_, htook⟩
  | ok resp =>
    rw [htake] at htook
    refine Landed.after (u := [.takeLeaseReply leases.length resp]) (landed_leaseAwaited ih ?_)
    by_cases hp : resp.status = pending
    · simp only [awaitLease, hp, if_true] at htook ⊢
      obtain ⟨hresult, htrace⟩ :=
        pollUntilDone_polled (n := leases.length) resp.leaseId _ 0 0 (W.lease leases.length).polls
      rw [hresult, htrace]
      exact polled_of_reaches htook rfl _
    · simp only [awaitLease, hp, if_false] at htook ⊢
      constructor
      · intro e he
        cases he
      · rintro _ ⟨⟩
        exact ⟨_, by simpa [untimed, isElapse] using htook⟩

theorem landed_leaseFixtures (hW : jobOf W J.setup = J) {leases : List ActiveLease} {env : Env}
    (h : Reaches W J t ⟨.leasing todo, leases, env⟩) :
    Landed W J t (leaseFixtures W J.setup leases.length todo leases env) := by
  induction todo generalizing t leases env with
  | nil =>
    constructor
    · exact nofun
    · rintro _ ⟨⟩
      rw [← List.append_nil t] at h
      exact h
  | cons fx todo ih =>
    have htaken := landed_leaseTaken (fun _ _ _ h => ih h) (h.step (i := .call) rfl fun _ => trivial)
    have hcons := leaseFixtures_cons hW ⟨.leasing (fx :: todo), leases, env⟩ fx todo
    rw [next_mk] at hcons
    rw [hcons]
    exact htaken.after (u := takeLeaseCall leases.length fx _ _ _)

theorem reaches_released {leases : List ActiveLease} {env : Env} {result : Int × Option String}
    (h : Reaches W J t ⟨.releasing result, leases, env⟩) :
    ∃ L, Reaches W J (t ++ untimed (releaseAll W leases)) L ∧ L.stage = .returned result := by
  induction leases generalizing t with
  | nil =>
    exact ⟨_, h.step (i := .exit) rfl fun _ => trivial, rfl⟩
  | cons lease leases ih =>
    obtain ⟨L, hL, hs⟩ := ih (h.step (i := .release) rfl fun _ => trivial)
    refine ⟨L, ?_, hs⟩
    rw [untimed_releaseAll] at hL ⊢
    simpa using hL

theorem reaches_tested (hW : jobOf W J.setup = J) {l : Leasing} (h : Landed W J t l) :
    ∃ L, Reaches W J (t ++ (finish W J l).trace) L ∧ L.stage = .returned (finish W J l).result := by
  obtain ⟨leases, result, u⟩ := l
  simp only [finish, untimed_append]
  cases result with
  | error e =>
    obtain ⟨env, hfailed⟩ := h.failed e rfl
    simpa [runTest, untimed] using reaches_released hfailed
  | ok env =>
    have hready := h.ready env rfl
    cases htest : W.test with
    | notStarted err =>
      have hfailed : Reaches W J (t ++ untimed u ++ []) ⟨.releasing (0, some (testError J err)), leases, env⟩ :=
        hready.step (step_start (some err) rfl) fun _ => by rw [Feeds, htest]; rfl
      have hrun : runTest W J.setup (.ok env) = ⟨(0, some (testError J err)), []⟩ := by
        unfold runTest runTestBinary
        rw [htest]
        rfl
      rw [hrun]
      obtain ⟨L, hL, hs⟩ := reaches_released hfailed
      exact ⟨L, by simpa [untimed] using hL, hs⟩
    | ran took how =>
      obtain ⟨hresult, htrace⟩ := runTest_ran hW htest ⟨.testing, leases, env⟩
      have hstarted : Reaches W J (t ++ untimed u ++ (stepStart J ⟨.testing, leases, env⟩ none).1)
          ⟨.testing, leases, env⟩ := hready.step (step_start none rfl) fun _ => by rw [Feeds, htest]; rfl
      have htested := hstarted.step (step_ended how took rfl) fun _ => htest
      obtain ⟨result, t', he⟩ := stepEnded_eq J ⟨.testing, leases, env⟩ took how
      rw [he] at hresult htrace htested
      obtain ⟨L, hL, hs⟩ := reaches_released htested
      refine ⟨L, ?_, ?_⟩
      · rw [htrace]
        simpa using hL
      · rw [hs, Option.some.inj hresult]

/-! ### The two agree -/

/-- The runner, step by step and fed with the answers of a host, can do this and return
that. -/
def Returns (W : World) (J : Job) (result : Int × Option String) (t : List Event) : Prop :=
  ∃ h L, (runner J).Run h L ∧ Along (Fed W) h ∧ L.stage = .returned result ∧ eventsOf h = t

theorem execute_finish {path : String} (hsetup : setup W path = .ok J.setup) :
    (execute W path).result = (finish W J (leaseFixtures W J.setup 0 J.setup.fixtures [] ∅)).result ∧
      untimed (execute W path).trace = (finish W J (leaseFixtures W J.setup 0 J.setup.fixtures [] ∅)).trace := by
  rw [execute_trace hsetup, ← List.append_assoc]
  simp only [execute, hsetup]
  exact ⟨rfl, rfl⟩

theorem returns_of_execute {path : String} (hsetup : setup W path = .ok J.setup) (hW : jobOf W J.setup = J) :
    Returns W J (execute W path).result (untimed (execute W path).trace) := by
  have hstart : Reaches W J [] (.start J) := ⟨0, [], .init rfl, trivial, rfl, rfl⟩
  obtain ⟨L, ⟨k, h, hr, hfed, -, ht⟩, hs⟩ := reaches_tested hW (landed_leaseFixtures hW hstart)
  obtain ⟨hresult, htrace⟩ := execute_finish hsetup
  refine ⟨h, L, hr, hfed, ?_, ?_⟩
  · rw [hs, hresult]
    rfl
  · rw [ht, htrace]
    rfl

theorem returns_unique {result result' : Int × Option String} (h : Returns W J result t) (h' : Returns W J result' u) :
    result = result' ∧ t = u := by
  obtain ⟨h, L, hr, hfed, hs, rfl⟩ := h
  obtain ⟨h', L', hr', hfed', hs', rfl⟩ := h'
  have hinit : ∀ L L' : Local, (runner J).init L → (runner J).init L' → L = L' := fun _ _ hL hL' => hL.trans hL'.symm
  obtain ⟨rfl, rfl⟩ := hr.eq_of_over (C := Fed W) hinit (fun _ _ _ _ _ _ _ _ => feeds_unique) hr' hfed hfed'
    (step_returned hs) (step_returned hs')
  exact ⟨Stage.returned.inj (hs.symm.trans hs'), rfl⟩

/-- On every host, the runner step by step and fed with the answers of the host returns and
does what `execute` does, and nothing else. -/
theorem returns_iff_execute {path : String} (hsetup : setup W path = .ok J.setup) (hW : jobOf W J.setup = J)
    (result : Int × Option String) (t : List Event) :
    Returns W J result t ↔ (execute W path).result = result ∧ untimed (execute W path).trace = t := by
  constructor
  · exact fun h => returns_unique (returns_of_execute hsetup hW) h
  · rintro ⟨rfl, rfl⟩
    exact returns_of_execute hsetup hW

set_option maxRecDepth 4000 in
/-- The second lease is pending at two polls, and a test that fails with status 3 runs under
both leases. -/
theorem returns_iff_execute_sample :
    let W := sampleWorld [⟨"cache", "redis"⟩, ⟨"store", "db"⟩] (fun n =>
      sampleLease (if n = 0 then ⟨succeeded, "l0", ∅, []⟩ else ⟨pending, "l1", ∅, []⟩)
        [⟨0, .ok ⟨pending, ∅, []⟩⟩, ⟨0, .ok ⟨pending, ∅, []⟩⟩, ⟨0, .ok ⟨succeeded, ∅, []⟩⟩]) (.ran 7 (.exited 3))
    Returns W (jobOf W (sampleSetup [⟨"cache", "redis"⟩, ⟨"store", "db"⟩])) (3, none)
      (untimed (execute W "_main/it.run_config.json").trace) := by
  intro W
  have hsetup : setup W "_main/it.run_config.json" = .ok (sampleSetup [⟨"cache", "redis"⟩, ⟨"store", "db"⟩]) := rfl
  have hresult : (execute W "_main/it.run_config.json").result = (3, none) := by
    rw [execute, hsetup]
    rfl
  exact (returns_iff_execute hsetup rfl _ _).2 ⟨hresult, rfl⟩

end RulesSystemtest.Runner
