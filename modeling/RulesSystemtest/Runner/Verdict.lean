import RulesSystemtest.Runner.Run

/-! The verdict of the runner. The test starts only when all leases are there, nothing
is released while it runs, and the exit code is the one of the test if there was one and
never zero otherwise. -/

namespace RulesSystemtest.Runner

variable {W : World} {S : Setup} {path : String} {before after : List Event}

/-! ### The fixtures are ready -/

/-- A reply with status `SUCCEEDED` and these outputs came for the `n`-th lease. -/
def LeaseSucceeded (n : ℕ) (outputs : BTreeMap Value) (t : List Event) : Prop :=
  (∃ resp, .takeLeaseReply n resp ∈ t ∧ resp.status = succeeded ∧ resp.outputs = outputs) ∨
    ∃ resp, .statusReply n resp ∈ t ∧ resp.status = succeeded ∧ resp.outputs = outputs

/-- The lease of a fixture was acquired, and its ports outputs were parsed. -/
def FixtureReady (W : World) (n : ℕ) (fixtureName : String) (t : List Event) : Prop :=
  ∃ outputs portEnv, LeaseSucceeded n outputs t ∧ .portsParsed n portEnv ∈ t ∧
    portEnvFromOutputs W.unmarshalPorts fixtureName ((W.lease n).range.list outputs) = .ok portEnv

def AllReady (W : World) (path : String) (t : List Event) : Prop :=
  ∃ cfg, loadRunConfig W.sources path = .ok cfg ∧
    ∀ n fc, cfg.fixtures[n]? = some fc → FixtureReady W n fc.name t

theorem LeaseSucceeded.mono {n : ℕ} {outputs : BTreeMap Value} {t u : List Event} (hsub : t ⊆ u)
    (h : LeaseSucceeded n outputs t) : LeaseSucceeded n outputs u := by
  rcases h with ⟨resp, hresp, h⟩ | ⟨resp, hresp, h⟩
  · exact .inl ⟨resp, hsub hresp, h⟩
  · exact .inr ⟨resp, hsub hresp, h⟩

theorem FixtureReady.mono {n : ℕ} {fixtureName : String} {t u : List Event} (hsub : t ⊆ u)
    (h : FixtureReady W n fixtureName t) : FixtureReady W n fixtureName u := by
  obtain ⟨outputs, portEnv, hlease, hparsed, henv⟩ := h
  exact ⟨outputs, portEnv, hlease.mono hsub, hsub hparsed, henv⟩

/-- The reply that decides a lease is in the trace. -/
theorem leaseSucceeded_takeLeaseTrace (n : ℕ) (fx : ResolvedFixture) (clientID : String)
    (ttlSeconds startupTimeout : Int64) {answers : LeaseAnswers} {resp : TakeLeaseResponse} {final : StatusResponse}
    (hdecision : decision resp answers.polls = some final) (hsucceeded : final.status = succeeded) :
    LeaseSucceeded n final.outputs (takeLeaseTrace n fx clientID ttlSeconds startupTimeout answers resp) := by
  by_cases hp : resp.status = pending
  · have hreply := statusReply_mem_awaitLease n startupTimeout hp hdecision
    exact .inr ⟨final, List.mem_append_right _ (List.mem_cons_of_mem _ hreply), hsucceeded, rfl⟩
  · rw [decision, if_neg hp] at hdecision
    cases hdecision
    exact .inl ⟨resp, List.mem_append_right _ List.mem_cons_self, hsucceeded, rfl⟩

/-- The loop over the fixtures ends well only when all of them are ready. -/
theorem leaseFixtures_ready (n : ℕ) (fixtures : List ResolvedFixture) (leases : List ActiveLease) (env env' : Env)
    (h : (leaseFixtures W S n fixtures leases env).result = .ok env') (i : ℕ) (fx : ResolvedFixture)
    (hfx : fixtures[i]? = some fx) :
    FixtureReady W (n + i) fx.name (leaseFixtures W S n fixtures leases env).trace := by
  induction fixtures generalizing n leases env i with
  | nil => simp at hfx
  | cons fx' fixtures ih =>
    unfold leaseFixtures at h ⊢
    rcases acquireLease_cases n fx' S.clientID S.cfg.leaseTTLSeconds (startupTimeout S) (W.lease n) with
      ⟨_, _, -, heq⟩ | ⟨_, _, -, -, heq⟩ | ⟨resp, final, -, hdecision, hsucceeded, heq⟩
    · simp [heq] at h
    · simp [heq] at h
    · cases hports : portEnvFromOutputs W.unmarshalPorts fx'.name ((W.lease n).range.list final.outputs) with
      | error e => simp [heq, hports] at h
      | ok portEnv =>
        simp only [heq, hports] at h ⊢
        cases i with
        | zero =>
          cases hfx
          have hlease := leaseSucceeded_takeLeaseTrace n fx S.clientID S.cfg.leaseTTLSeconds (startupTimeout S)
            hdecision hsucceeded
          refine ⟨final.outputs, portEnv, hlease.mono fun e he => ?_, ?_, hports⟩
          · exact List.mem_append_left _ (List.mem_append_left _ he)
          · exact List.mem_append_right _ List.mem_cons_self
        | succ i =>
          have hrest := ih (n + 1) _ _ h i hfx
          rw [Nat.add_right_comm] at hrest
          exact hrest.mono fun e he => List.mem_append_right _ (List.mem_cons_of_mem _ he)

theorem leasing_ready (hsetup : setup W path = .ok S) {env : Env} (h : (leasing W S).result = .ok env) :
    AllReady W path (leasing W S).trace := by
  obtain ⟨hcfg, hnames⟩ := setup_ok hsetup
  refine ⟨S.cfg, hcfg, fun n fc hfc => ?_⟩
  have hname := congrArg (fun names => names[n]?) hnames
  simp only [List.getElem?_map, hfc, Option.map_some] at hname
  obtain ⟨fx, hfx, hname⟩ := Option.map_eq_some_iff.1 hname
  have hready := leaseFixtures_ready 0 S.fixtures [] ∅ env h n fx hfx
  rw [Nat.zero_add, hname] at hready
  exact hready

/-! ### The test and the code -/

/-- The exit code for what `execute` returns. -/
def exitCode : Int × Option String → Int
  | (code, some _) => if code = 0 then 1 else code
  | (code, none) => code

/-- The code of a test that ended in some way: its status, or some code that is not
zero. -/
def CodeFor (how : TestEnd) (code : Int) : Prop :=
  match how with
  | .exited status => code = status
  | _ => code ≠ 0

/-- The test starts once and comes to an end before anything else happens, or it does
not start and the code is not zero. -/
theorem runTest_cases (W : World) (S : Setup) (result : Except String Env) :
    (exitCode (runTest W S result).result ≠ 0 ∧ (runTest W S result).trace = []) ∨
    ∃ injectedEnv env took how reports, result = .ok injectedEnv ∧
      (runTest W S result).trace =
        .testStarted S.testBinaryPath S.cfg.test.args env :: .elapse took :: .testEnded how :: reports ∧
      CodeFor how (exitCode (runTest W S result).result) ∧
      ∀ e ∈ reports, ∃ dest suite, e = .report dest suite ∧
        (suite.failures = 1 ↔ exitCode (runTest W S result).result ≠ 0) := by
  cases result with
  | error e => exact .inl ⟨by simp [runTest, exitCode], rfl⟩
  | ok injectedEnv =>
    cases hanswer : W.test with
    | notStarted err => exact .inl (by simp [runTest, runTestBinary, hanswer, exitCode])
    | ran took how =>
      refine .inr ⟨injectedEnv, mergeEnv W.environ [encodeEnv injectedEnv, encodeEnv S.cfg.test.env], took, how, ?_⟩
      have hreports : ∀ (code : Int) (duration : ℕ),
          ∀ e ∈ (writeJUnitReport W.sink S.cfg.systemtestLabel code duration).trace,
            ∃ dest suite, e = .report dest suite ∧ (suite.failures = 1 ↔ code ≠ 0) :=
        fun code duration e he => ⟨_, _, mem_writeJUnitReport he, failures_junitSuite _ _ _⟩
      cases how with
      | exited status =>
        simp only [runTest, runTestBinary, hanswer]
        exact ⟨_, trivial, rfl, rfl, hreports status _⟩
      | signaled =>
        simp only [runTest, runTestBinary, hanswer]
        exact ⟨_, trivial, rfl, show (-1 : Int) ≠ 0 by decide, hreports (-1) _⟩
      | lost err =>
        simp only [runTest, runTestBinary, hanswer]
        exact ⟨[], trivial, rfl, show (1 : Int) ≠ 0 by decide, by simp⟩

/-! ### The whole run -/

/-- What a run does and returns: it has no test in it and its code is not zero, or it
leases, then tests, then releases. -/
theorem execute_cases (W : World) (path : String) :
    (exitCode (execute W path).result ≠ 0 ∧ ∀ e ∈ (execute W path).trace, IsLeaseEvent e ∨ IsReleaseEvent e) ∨
    ∃ acquiring releasing binaryPath args env took how reports,
      (execute W path).trace = acquiring ++
        .testStarted binaryPath args env :: .elapse took :: .testEnded how :: (reports ++ releasing) ∧
      (∀ e ∈ acquiring, IsLeaseEvent e) ∧ (∀ e ∈ releasing, IsReleaseEvent e) ∧ AllReady W path acquiring ∧
      CodeFor how (exitCode (execute W path).result) ∧
      ∀ e ∈ reports, ∃ dest suite, e = .report dest suite ∧
        (suite.failures = 1 ↔ exitCode (execute W path).result ≠ 0) := by
  cases hsetup : setup W path with
  | error e => exact .inl ⟨by simp [execute, hsetup, exitCode], by simp [execute, hsetup]⟩
  | ok S =>
    have hleases := isLeaseEvent_leaseFixtures (W := W) (S := S) 0 S.fixtures [] ∅
    have hreleases := isReleaseEvent_releaseAll (W := W) (leasing W S).leases
    have hresult : (execute W path).result = (runTest W S (leasing W S).result).result := by rw [execute, hsetup]
    rw [hresult, execute_trace hsetup]
    rcases runTest_cases W S (leasing W S).result with ⟨hcode, hnone⟩ |
      ⟨injectedEnv, env, took, how, reports, hok, heq, hcode, hreports⟩
    · refine .inl ⟨hcode, fun e he => ?_⟩
      rw [hnone, List.nil_append] at he
      exact (List.mem_append.1 he).imp (hleases e) (hreleases e)
    · refine .inr ⟨(leasing W S).trace, releaseAll W (leasing W S).leases, S.testBinaryPath, S.cfg.test.args, env, took,
        how, reports, ?_, hleases, hreleases, leasing_ready hsetup hok, hcode, hreports⟩
      rw [heq]
      rfl

/-! ### The verdict -/

def isTestStarted : Event → Bool
  | .testStarted _ _ _ => true
  | _ => false

/-- What the trace and the code of a run with a given configuration tell about the
test. -/
structure Verdict (W : World) (path : String) (out : Logged Int) : Prop where
  once : out.trace.countP isTestStarted ≤ 1
  ready : ∀ before binaryPath args env after, out.trace = before ++ .testStarted binaryPath args env :: after →
    AllReady W path before ∧ ∀ lease, .releaseLease lease ∉ before
  held : ∀ before lease after, out.trace = before ++ .releaseLease lease :: after →
    (∃ e ∈ out.trace, isTestStarted e = true) → ∃ how, .testEnded how ∈ before
  exited : ∀ status : ℕ, .testEnded (.exited status) ∈ out.trace → out.result = status
  failed : (∀ status : ℕ, .testEnded (.exited status) ∉ out.trace) → out.result ≠ 0
  passed : out.result = 0 ↔ ∃ before binaryPath args env after,
    out.trace = before ++ .testStarted binaryPath args env :: after ∧ AllReady W path before ∧
      .testEnded (.exited 0) ∈ after
  reported : ∀ dest suite, .report dest suite ∈ out.trace → (suite.failures = 1 ↔ out.result ≠ 0)

theorem countP_isTestStarted {t : List Event} (h : ∀ e ∈ t, isTestStarted e = false) : t.countP isTestStarted = 0 := by
  rw [List.countP_eq_zero]
  intro e he
  simp [h e he]

theorem verdict_of_untested {out : Logged Int} (hcode : out.result ≠ 0)
    (h : ∀ e ∈ out.trace, IsLeaseEvent e ∨ IsReleaseEvent e) : Verdict W path out := by
  have hstart : ∀ e ∈ out.trace, isTestStarted e = false := by
    intro e he
    rcases h e he with h | h <;> cases e <;> trivial
  have hended : ∀ how, .testEnded how ∉ out.trace := fun how he => (h _ he).elim id id
  constructor
  · rw [countP_isTestStarted hstart]
    exact Nat.zero_le 1
  · intro before binaryPath args env after heq
    have hnot := hstart (.testStarted binaryPath args env) (by simp [heq])
    cases hnot
  · rintro before lease after - ⟨e, he, hstarted⟩
    exact absurd ((hstart e he).symm.trans hstarted) Bool.false_ne_true
  · exact fun status he => absurd he (hended _)
  · exact fun _ => hcode
  · refine iff_of_false hcode ?_
    rintro ⟨before, binaryPath, args, env, after, heq, -, he⟩
    exact hended _ (heq ▸ List.mem_append_right _ (List.mem_cons_of_mem _ he))
  · exact fun dest suite he => ((h _ he).elim id id).elim

/-- The run leased, tested, reported and released, in this order. -/
structure Tested (W : World) (path : String) (out : Logged Int) (acquiring reports releasing : List Event)
    (binaryPath : String) (args : List String) (env : Multiset Bytes) (took : ℕ) (how : TestEnd) : Prop where
  trace : out.trace = acquiring ++
    .testStarted binaryPath args env :: .elapse took :: .testEnded how :: (reports ++ releasing)
  leases : ∀ e ∈ acquiring, IsLeaseEvent e
  releases : ∀ e ∈ releasing, IsReleaseEvent e
  allReady : AllReady W path acquiring
  code : CodeFor how out.result
  reports : ∀ e ∈ reports, ∃ dest suite, e = .report dest suite ∧ (suite.failures = 1 ↔ out.result ≠ 0)

section Tested

variable {out : Logged Int} {acquiring reports releasing : List Event} {binaryPath : String} {args : List String}
  {env : Multiset Bytes} {took : ℕ} {how : TestEnd}

theorem Tested.not_started_before (t : Tested W path out acquiring reports releasing binaryPath args env took how) :
    ∀ e ∈ acquiring, isTestStarted e = false := by
  intro e he
  have hlease := t.leases e he
  cases e <;> trivial

theorem Tested.not_started_after (t : Tested W path out acquiring reports releasing binaryPath args env took how) :
    ∀ e ∈ Event.elapse took :: .testEnded how :: (reports ++ releasing), isTestStarted e = false := by
  intro e he
  simp only [List.mem_cons, List.mem_append] at he
  rcases he with rfl | rfl | he | he
  · rfl
  · rfl
  · obtain ⟨dest, suite, rfl, -⟩ := t.reports e he
    rfl
  · have hrelease := t.releases e he
    cases e <;> trivial

theorem Tested.testEnded_iff (t : Tested W path out acquiring reports releasing binaryPath args env took how)
    (how' : TestEnd) : .testEnded how' ∈ out.trace ↔ how' = how := by
  have hacquiring : .testEnded how' ∉ acquiring := fun he => t.leases _ he
  have hreleasing : .testEnded how' ∉ releasing := fun he => t.releases _ he
  have hreports : .testEnded how' ∉ reports := by
    intro he
    obtain ⟨dest, suite, heq, -⟩ := t.reports _ he
    cases heq
  simp [t.trace, hacquiring, hreports, hreleasing]

/-- The test starts once, after the leases. -/
theorem Tested.eq_of_started (t : Tested W path out acquiring reports releasing binaryPath args env took how)
    {before after : List Event} {binaryPath' : String} {args' : List String} {env' : Multiset Bytes}
    (heq : out.trace = before ++ .testStarted binaryPath' args' env' :: after) : before = acquiring := by
  rw [t.trace] at heq
  have hnone : .testStarted binaryPath' args' env' ∉ acquiring := fun he => t.leases _ he
  obtain ⟨c, rfl, hc⟩ := before_of_split hnone heq
  cases c with
  | nil => exact List.append_nil acquiring
  | cons x c =>
    rw [List.cons_append, List.cons.injEq] at hc
    have hnot := t.not_started_after (.testStarted binaryPath' args' env') (by rw [hc.2]; simp)
    cases hnot

/-- No lease is released before the test ended. -/
theorem Tested.held (t : Tested W path out acquiring reports releasing binaryPath args env took how)
    {before after : List Event} {lease : ActiveLease} (heq : out.trace = before ++ .releaseLease lease :: after) :
    .testEnded how ∈ before := by
  have hsplit : out.trace =
      (acquiring ++ .testStarted binaryPath args env :: .elapse took :: .testEnded how :: reports) ++ releasing := by
    simp [t.trace]
  rw [hsplit] at heq
  have hnone : .releaseLease lease ∉
      acquiring ++ .testStarted binaryPath args env :: .elapse took :: .testEnded how :: reports := by
    intro he
    rcases List.mem_append.1 he with he | he
    · exact t.leases _ he
    · simp only [List.mem_cons, reduceCtorEq, false_or] at he
      obtain ⟨dest, suite, hreport, -⟩ := t.reports _ he
      cases hreport
  obtain ⟨c, rfl, -⟩ := before_of_split hnone heq
  simp

theorem Tested.result_zero_iff (t : Tested W path out acquiring reports releasing binaryPath args env took how) :
    out.result = 0 ↔ how = .exited 0 := by
  have hcode := t.code
  cases how with
  | exited status =>
    rw [show out.result = status from hcode, TestEnd.exited.injEq]
    exact Int.natCast_eq_zero
  | signaled => exact iff_of_false hcode nofun
  | lost err => exact iff_of_false hcode nofun

theorem Tested.reported (t : Tested W path out acquiring reports releasing binaryPath args env took how)
    {dest : String} {suite : JunitTestsuite} (he : .report dest suite ∈ out.trace) :
    suite.failures = 1 ↔ out.result ≠ 0 := by
  have hacquiring : .report dest suite ∉ acquiring := fun he => t.leases _ he
  have hreleasing : .report dest suite ∉ releasing := fun he => t.releases _ he
  have hmem : .report dest suite ∈ reports := by simpa [t.trace, hacquiring, hreleasing] using he
  obtain ⟨dest', suite', heq, hfailures⟩ := t.reports _ hmem
  cases heq
  exact hfailures

theorem Tested.verdict (t : Tested W path out acquiring reports releasing binaryPath args env took how) :
    Verdict W path out := by
  constructor
  · rw [t.trace, List.countP_append, countP_isTestStarted t.not_started_before, List.countP_cons,
      countP_isTestStarted t.not_started_after]
    exact le_rfl
  · intro before binaryPath' args' env' after heq
    obtain rfl := t.eq_of_started heq
    exact ⟨t.allReady, fun lease he => t.leases _ he⟩
  · intro before lease after heq _
    exact ⟨how, t.held heq⟩
  · intro status he
    have hcode := t.code
    rw [← (t.testEnded_iff _).1 he] at hcode
    exact hcode
  · intro hnone hzero
    exact hnone 0 ((t.testEnded_iff _).2 (t.result_zero_iff.1 hzero).symm)
  · rw [t.result_zero_iff]
    constructor
    · rintro rfl
      exact ⟨acquiring, binaryPath, args, env, _, t.trace, t.allReady, by simp⟩
    · rintro ⟨before, binaryPath', args', env', after, heq, -, he⟩
      have hmem : .testEnded (.exited 0) ∈ out.trace := heq ▸ List.mem_append_right _ (List.mem_cons_of_mem _ he)
      exact ((t.testEnded_iff _).1 hmem).symm
  · exact fun dest suite he => t.reported he

end Tested

/-- The verdict of the runner is sound. -/
theorem verdict_run (cobra : List String → Command) (hcobra : ∀ P, cobra ["run", "--run-config", P] = .run P)
    (W : World) (prog P : String) : Verdict W P (run cobra W [prog, "run", "--run-config", P]) := by
  have hrun : run cobra W [prog, "run", "--run-config", P] =
      ⟨exitCode (execute W P).result, (execute W P).trace⟩ := by
    rw [run, List.tail_cons, hcobra]
    dsimp only
    generalize execute W P = executed
    rcases executed with ⟨⟨code, err⟩, trace⟩
    cases err <;> rfl
  rw [hrun]
  rcases execute_cases W P with ⟨hcode, huntested⟩ | ⟨acquiring, releasing, binaryPath, args, env, took, how, reports,
    htrace, hacquiring, hreleasing, hready, hcode, hreports⟩
  · exact verdict_of_untested hcode huntested
  · exact Tested.verdict ⟨htrace, hacquiring, hreleasing, hready, hcode, hreports⟩

/-- The library on the command lines of the runner. -/
def sampleCobra : List String → Command
  | ["run", "--run-config", path] => .run path
  | ["--help"] => .help
  | _ => .rejected "required flag(s) \"run-config\" not set"

/-- Two fixtures, one of which is provisioned, and a test that fails. -/
theorem verdict_run_sample : Verdict
    (sampleWorld [⟨"cache", "redis"⟩, ⟨"store", "db"⟩] (fun n => sampleLease ⟨if n = 0 then pending else succeeded, "l", ∅, []⟩
      [⟨0, .ok ⟨pending, ∅, []⟩⟩, ⟨0, .ok ⟨succeeded, ∅, []⟩⟩]) (.ran 0 (.exited 3)))
    "_main/it.run_config.json"
    (run sampleCobra
      (sampleWorld [⟨"cache", "redis"⟩, ⟨"store", "db"⟩] (fun n => sampleLease ⟨if n = 0 then pending else succeeded, "l", ∅, []⟩
        [⟨0, .ok ⟨pending, ∅, []⟩⟩, ⟨0, .ok ⟨succeeded, ∅, []⟩⟩]) (.ran 0 (.exited 3)))
      ["systemtest-runner", "run", "--run-config", "_main/it.run_config.json"]) :=
  verdict_run sampleCobra (fun _ => rfl) _ _ _

end RulesSystemtest.Runner
