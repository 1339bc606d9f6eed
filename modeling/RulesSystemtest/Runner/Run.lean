import RulesSystemtest.Runner.Exec
import RulesSystemtest.Runner.Lease
import RulesSystemtest.Runner.Unmarshal

/-! The runner as a whole: setup, one lease for each fixture, the inner test, its
report, and the deferred releases. Every answer of the environment is a field of
`World`, so that a run is a function of it. -/

namespace RulesSystemtest.Runner

/-- The environment of one run. The answers for the leases are listed by fixture. -/
structure World where
  sources : Sources
  process : Process
  ensureCoordinatorRunning : String → Bytes → Except String String
  dialCoordinator : String → Except String Unit
  lease : ℕ → LeaseAnswers
  unmarshalPorts : Bytes → Except String PortsSchema
  environ : List Bytes
  test : TestAnswer
  sink : ReportSink

/-! ### Before the first lease -/

structure Setup where
  cfg : RunConfig
  testBinaryPath : String
  fixtures : List ResolvedFixture
  clientID : String

def setup (W : World) (runConfigPath : String) : Except String Setup := do
  let cfg ← loadRunConfig W.sources runConfigPath
  let coordinatorBinPath ← (resolveRlocation W.sources cfg.coordinatorBin).mapError ("resolving coordinator_bin: " ++ ·)
  let testBinaryPath ← (resolveRlocation W.sources cfg.test.binaryPath).mapError ("resolving test.binary_path: " ++ ·)
  let fixtures ← cfg.fixtures.mapM (loadFixtureDescription W.sources)
  let wsKey ← workspaceKey W.process
  let sockPath ← (W.ensureCoordinatorRunning coordinatorBinPath wsKey).mapError ("starting coordinator: " ++ ·)
  (W.dialCoordinator sockPath).mapError ("dialing coordinator: " ++ ·)
  return ⟨cfg, testBinaryPath, fixtures, computeClientID W.process wsKey⟩

/-- The product of 64-bit integers wraps around. -/
def startupTimeout (S : Setup) : Int64 := S.cfg.startupTimeoutSeconds * 1000000000

/-! ### The fixtures -/

/-- Where the loop over the fixtures ends. The leases that are held then are released
when `execute` returns. -/
structure Leasing where
  leases : List ActiveLease
  result : Except String Env
  trace : List Event

def leaseFixtures (W : World) (S : Setup) : ℕ → List ResolvedFixture → List ActiveLease → Env → Leasing
  | _, [], leases, injectedEnv => ⟨leases, .ok injectedEnv, []⟩
  | n, fx :: fixtures, leases, injectedEnv =>
    let acquired := acquireLease n fx S.clientID S.cfg.leaseTTLSeconds (startupTimeout S) (W.lease n)
    match acquired.result with
    | .error e => ⟨leases, .error e, acquired.trace⟩
    | .ok lease =>
      match portEnvFromOutputs W.unmarshalPorts fx.name ((W.lease n).range.list lease.outputs) with
      | .error e => ⟨leases ++ [lease], .error e, acquired.trace⟩
      | .ok portEnv =>
        let rest := leaseFixtures W S (n + 1) fixtures (leases ++ [lease]) (portEnv ∪ injectedEnv)
        ⟨rest.leases, rest.result, acquired.trace ++ .portsParsed n portEnv :: rest.trace⟩

def leasing (W : World) (S : Setup) : Leasing := leaseFixtures W S 0 S.fixtures [] ∅

def releaseAll (W : World) (leases : List ActiveLease) : List Event :=
  leases.flatMap fun l => releaseLease l (W.lease l.stop).releaseTook

/-! ### The test and the exit code -/

/-- What follows the loop over the fixtures. A report that cannot be written is only
warned about. -/
def runTest (W : World) (S : Setup) : Except String Env → Logged (Int × Option String)
  | .error e => ⟨(0, some e), []⟩
  | .ok injectedEnv =>
    let ran := runTestBinary S.testBinaryPath S.cfg.test.args W.environ injectedEnv S.cfg.test.env W.test
    match ran.result with
    | (_, some runErr) => ⟨(0, some runErr), ran.trace⟩
    | (exitCode, none) =>
      let written := writeJUnitReport W.sink S.cfg.systemtestLabel exitCode (clock ran.trace)
      ⟨(exitCode, none), ran.trace ++ written.trace⟩

/-- The code and the error of `(int, error)`. -/
def execute (W : World) (runConfigPath : String) : Logged (Int × Option String) :=
  match setup W runConfigPath with
  | .error e => ⟨(0, some e), []⟩
  | .ok S =>
    let tested := runTest W S (leasing W S).result
    ⟨tested.result, (leasing W S).trace ++ tested.trace ++ releaseAll W (leasing W S).leases⟩

/-- What the command line library does with the arguments: it rejects them, deals with
them itself, or calls the body of the `run` command. -/
inductive Command where
  | rejected (err : String)
  | help
  | run (runConfigPath : String)

def run (cobra : List String → Command) (W : World) (argv : List String) : Logged Int :=
  match cobra argv.tail with
  | .rejected _ => ⟨2, []⟩
  | .help => ⟨0, []⟩
  | .run runConfigPath =>
    let executed := execute W runConfigPath
    match executed.result with
    | (exitCode, some _) => ⟨if exitCode = 0 then 1 else exitCode, executed.trace⟩
    | (exitCode, none) => ⟨exitCode, executed.trace⟩

variable {W : World} {S : Setup}

theorem bind_eq_ok {α β : Type} {x : Except String α} {f : α → Except String β} {b : β} :
    (x >>= f) = .ok b ↔ ∃ a, x = .ok a ∧ f a = .ok b := by
  cases x with
  | error e => exact ⟨nofun, nofun⟩
  | ok a => exact ⟨fun h => ⟨a, rfl, h⟩, fun ⟨_, h, hf⟩ => by cases h; exact hf⟩

/-- The fixtures that are loaded have the names that the configuration gives them. -/
theorem name_of_mapM {fcs : List FixtureConfig} {fixtures : List ResolvedFixture}
    (h : fcs.mapM (loadFixtureDescription W.sources) = .ok fixtures) :
    fixtures.map (·.name) = fcs.map (·.name) := by
  induction fcs generalizing fixtures with
  | nil =>
    cases h
    rfl
  | cons fc fcs ih =>
    rw [List.mapM_cons] at h
    obtain ⟨fx, hfx, h⟩ := bind_eq_ok.1 h
    obtain ⟨rest, hrest, h⟩ := bind_eq_ok.1 h
    cases h
    rw [List.map_cons, List.map_cons, ih hrest, loadFixtureDescription_name hfx]

/-- The configuration is the one at the given path, and its fixtures are the ones that
are leased. -/
theorem setup_ok {path : String} (h : setup W path = .ok S) :
    loadRunConfig W.sources path = .ok S.cfg ∧ S.fixtures.map (·.name) = S.cfg.fixtures.map (·.name) := by
  obtain ⟨cfg, hcfg, h⟩ := bind_eq_ok.1 h
  obtain ⟨coordinatorBinPath, -, h⟩ := bind_eq_ok.1 h
  obtain ⟨testBinaryPath, -, h⟩ := bind_eq_ok.1 h
  obtain ⟨fixtures, hfixtures, h⟩ := bind_eq_ok.1 h
  obtain ⟨wsKey, -, h⟩ := bind_eq_ok.1 h
  obtain ⟨sockPath, -, h⟩ := bind_eq_ok.1 h
  obtain ⟨-, -, h⟩ := bind_eq_ok.1 h
  cases h
  exact ⟨hcfg, name_of_mapM hfixtures⟩

theorem execute_trace {path : String} (h : setup W path = .ok S) : (execute W path).trace = (leasing W S).trace ++
    ((runTest W S (leasing W S).result).trace ++ releaseAll W (leasing W S).leases) := by
  simp [execute, h]

/-! ### Phases -/

/-- The events of the loop over the fixtures. -/
def IsLeaseEvent : Event → Prop
  | .takeLease _ _ | .takeLeaseReply _ _ | .status _ _ | .statusReply _ _ => True
  | .startKeepalive _ _ | .portsParsed _ _ | .elapse _ => True
  | _ => False

/-- The events of the test and its report. -/
def IsTestEvent : Event → Prop
  | .testStarted _ _ _ | .testEnded _ | .report _ _ | .elapse _ => True
  | _ => False

/-- The events of the deferred function. -/
def IsReleaseEvent : Event → Prop
  | .stopKeepalive _ | .releaseLease _ | .elapse _ => True
  | _ => False

theorem isLeaseEvent_of_poll {n : ℕ} {e : Event} (h : IsPollEvent n e) : IsLeaseEvent e := by
  cases e <;> trivial

theorem isLeaseEvent_takeLeaseTrace {n : ℕ} {fx : ResolvedFixture} {clientID : String} {ttlSeconds startupTimeout : Int64}
    {answers : LeaseAnswers} {resp : TakeLeaseResponse} :
    ∀ e ∈ takeLeaseTrace n fx clientID ttlSeconds startupTimeout answers resp, IsLeaseEvent e := by
  intro e he
  rcases List.mem_append.1 he with he | he
  · rcases List.mem_pair.1 he with rfl | rfl <;> trivial
  · rcases List.mem_cons.1 he with rfl | he
    · trivial
    · exact isLeaseEvent_of_poll (awaitLease_polling e he)

theorem isLeaseEvent_acquireLease (n : ℕ) (fx : ResolvedFixture) (clientID : String) (ttlSeconds startupTimeout : Int64)
    (answers : LeaseAnswers) :
    ∀ e ∈ (acquireLease n fx clientID ttlSeconds startupTimeout answers).trace, IsLeaseEvent e := by
  intro e he
  rcases acquireLease_cases n fx clientID ttlSeconds startupTimeout answers with
    ⟨_, _, -, heq⟩ | ⟨resp, _, -, -, heq⟩ | ⟨resp, _, -, -, -, heq⟩
  · rw [heq] at he
    rcases List.mem_pair.1 he with rfl | rfl <;> trivial
  · rw [heq] at he
    exact isLeaseEvent_takeLeaseTrace e he
  · rw [heq] at he
    rcases List.mem_append.1 he with he | he
    · exact isLeaseEvent_takeLeaseTrace e he
    · obtain rfl := List.mem_singleton.1 he
      trivial

/-- What holds of the events of every lease holds of those of the loop. -/
theorem forall_mem_leaseFixtures {p : Event → Prop} (hparsed : ∀ n portEnv, p (.portsParsed n portEnv))
    (hacquire : ∀ n fx, ∀ e ∈ (acquireLease n fx S.clientID S.cfg.leaseTTLSeconds (startupTimeout S) (W.lease n)).trace, p e)
    (n : ℕ) (fixtures : List ResolvedFixture) (leases : List ActiveLease) (env : Env) :
    ∀ e ∈ (leaseFixtures W S n fixtures leases env).trace, p e := by
  induction fixtures generalizing n leases env with
  | nil => exact fun e he => nomatch he
  | cons fx fixtures ih =>
    unfold leaseFixtures
    dsimp only
    split
    · exact hacquire n fx
    · split
      · exact hacquire n fx
      · intro e he
        rcases List.mem_append.1 he with he | he
        · exact hacquire n fx e he
        · rcases List.mem_cons.1 he with rfl | he
          · exact hparsed _ _
          · exact ih _ _ _ e he

theorem isLeaseEvent_leaseFixtures (n : ℕ) (fixtures : List ResolvedFixture) (leases : List ActiveLease) (env : Env) :
    ∀ e ∈ (leaseFixtures W S n fixtures leases env).trace, IsLeaseEvent e := by
  apply forall_mem_leaseFixtures
  · exact fun _ _ => trivial
  · exact fun n fx => isLeaseEvent_acquireLease n fx _ _ _ _

theorem isTestEvent_runTest (result : Except String Env) : ∀ e ∈ (runTest W S result).trace, IsTestEvent e := by
  have hran : ∀ env, ∀ e ∈ (runTestBinary S.testBinaryPath S.cfg.test.args W.environ env S.cfg.test.env W.test).trace,
      IsTestEvent e := by
    intro env e he
    unfold runTestBinary at he
    cases hanswer : W.test with
    | notStarted err =>
      rw [hanswer] at he
      cases he
    | ran took how =>
      rw [hanswer] at he
      cases how <;>
        · simp only [List.mem_cons, List.not_mem_nil, or_false] at he
          rcases he with rfl | rfl | rfl <;> trivial
  intro e he
  cases result with
  | error err => cases he
  | ok env =>
    unfold runTest at he
    dsimp only at he
    split at he
    · exact hran env e he
    · rcases List.mem_append.1 he with he | he
      · exact hran env e he
      · rw [mem_writeJUnitReport he]
        trivial

theorem isReleaseEvent_releaseAll (leases : List ActiveLease) : ∀ e ∈ releaseAll W leases, IsReleaseEvent e := by
  intro e he
  obtain ⟨l, -, hl⟩ := List.mem_flatMap.1 he
  simp only [releaseLease, List.mem_cons, List.not_mem_nil, or_false] at hl
  rcases hl with rfl | rfl | rfl <;> trivial

/-! ### A sample environment -/

def sampleTarget (label : Label) : FixtureTarget :=
  ⟨label, "_main/" ++ label.package ++ "/" ++ label.name ++ ".fixture.json"⟩

def sampleConfig (labels : List Label) : RunConfig where
  systemtestLabel := "@@//:it"
  coordinatorBin := "_main/coordinator_local"
  leaseTTLSeconds := 60
  startupTimeoutSeconds := 300
  fixtures := fixturesConfig (labels.map sampleTarget)
  test := ⟨"_main/it_test", [], ∅⟩

def sampleConfigText (labels : List Label) : String :=
  let fixture (fc : FixtureConfig) :=
    "\x7b\"name\":\"" ++ fc.name ++ "\",\"description_path\":\"" ++ fc.descriptionPath ++ "\"\x7d"
  "\x7b\"systemtest_label\":\"@@//:it\",\"mode\":\"local\",\"coordinator_bin\":\"_main/coordinator_local\"," ++
    "\"lease_ttl_seconds\":60,\"startup_timeout_seconds\":300,\"fixtures\":[" ++
    String.intercalate "," ((sampleConfig labels).fixtures.map fixture) ++
    "],\"test\":\x7b\"binary_path\":\"_main/it_test\",\"args\":[],\"env\":\x7b\x7d\x7d\x7d"

/-- The files of a test with some fixtures, whose descriptions are empty. -/
def sampleSources (labels : List Label) : Sources where
  rlocation path := .ok ("/runfiles/" ++ path)
  readFile path :=
    .ok (utf8 (if path = "/runfiles/_main/it.run_config.json" then sampleConfigText labels else "\x7b\x7d"))
  unmarshalConfig data :=
    if data = utf8 (sampleConfigText labels) then .ok (sampleConfig labels) else .error "unexpected end of JSON input"
  unmarshalDescription data :=
    if data = utf8 "\x7b\x7d" then .ok ⟨"", none, ∅, [], [], none, 0, ""⟩ else .error "unexpected token"

def sampleRange : OutputsRange := ⟨fun outputs => outputs.toList, fun _ => .refl _⟩

def sampleLease (resp : TakeLeaseResponse) (polls : List PollAnswer) : LeaseAnswers :=
  ⟨0, .ok resp, polls, sampleRange, fun _ => 0, 0⟩

/-- The sha256 of the node id, the user and the workspace below, with their separators. -/
def sampleDigest : Bytes :=
  [240, 17, 238, 68, 84, 90, 36, 122, 23, 47, 77, 162, 53, 68, 36, 13, 215, 4, 132, 242, 91, 144, 238, 171, 90, 82, 22,
    78, 135, 46, 215, 143]

/-- A host on which everything but the leases and the test goes well. -/
def sampleWorld (labels : List Label) (lease : ℕ → LeaseAnswers) (test : TestAnswer) : World where
  sources := sampleSources labels
  process := ⟨.ok "/runfiles/_main/runner", fun _ => .ok (utf8 "/out/runner"), [2, 0, 0, 0, 0, 1], .ok (utf8 "alice"),
    fun _ => sampleDigest⟩
  ensureCoordinatorRunning _ _ := .ok "/tmp/systemtest/0/server.sock"
  dialCoordinator _ := .ok ()
  lease := lease
  unmarshalPorts := unmarshal
  environ := []
  test := test
  sink := ⟨"", fun _ => .ok [], fun _ _ => .ok ()⟩

def sampleSetup (labels : List Label) : Setup where
  cfg := sampleConfig labels
  testBinaryPath := "/runfiles/_main/it_test"
  fixtures := labels.map fun label => ⟨label.name, ⟨"", none, ∅, [], [], none, 0, ""⟩⟩
  clientID := hexEncode sampleDigest

end RulesSystemtest.Runner
