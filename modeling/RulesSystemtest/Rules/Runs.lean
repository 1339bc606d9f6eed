import RulesSystemtest.Rules.Systemtest
import RulesSystemtest.Runner.ChildEnv

/-! The runs of a `systemtest` target. What a runner asks the coordinator for, what it
starts the test with and what it reports is what the attributes of the target say. -/

namespace RulesSystemtest.Rules

open Library Runner

variable {ctx : Context} {coordinator : File} {W : Runner.World} {S : Setup} {path : String} {text : Bytes}

/-! ### The configuration of a run -/

/-- The runner finds this text as its configuration. -/
structure Finds (S : Sources) (path : String) (text : Bytes) : Prop where
  decoder : S.unmarshalConfig = unmarshalConfig
  file : ∃ resolved, S.rlocation path = .ok resolved ∧ S.readFile resolved = .ok text

theorem resolve_ok {toolchain : Option File} {type what : String} {file : File}
    (h : resolve toolchain type what = .ok file) : toolchain = some file := by
  unfold resolve at h
  split at h
  · cases h
  · exact congrArg some (Except.ok.inj h)

/-- The rule writes a file in local mode only, and when both toolchains are registered. -/
theorem systemtestImpl_ok (h : systemtestImpl ctx = .ok text) : ctx.mode = coordinatorModeLocal ∧
    (∃ runner, ctx.runner = some runner) ∧
    ∃ coordinator, ctx.coordinator = some coordinator ∧ text = encodeIndent (runConfig ctx coordinator) := by
  unfold systemtestImpl at h
  split at h
  · cases h
  · next hmode =>
    obtain ⟨runner, hrunner, h⟩ := bind_eq_ok.1 h
    obtain ⟨coordinator, hcoordinator, h⟩ := bind_eq_ok.1 h
    exact ⟨not_not.1 hmode, ⟨runner, resolve_ok hrunner⟩, coordinator, resolve_ok hcoordinator, (Except.ok.inj h).symm⟩

theorem resolveRlocation_ok {S : Sources} {resolved : String} :
    resolveRlocation S path = .ok resolved ↔ S.rlocation path = .ok resolved := by
  unfold resolveRlocation
  cases S.rlocation path with
  | error e => exact ⟨nofun, nofun⟩
  | ok resolved' => exact Iff.rfl

theorem loadRunConfig_finds {S : Sources} (h : Finds S path (encodeIndent (runConfig ctx coordinator))) :
    loadRunConfig S path = .ok (configOf ctx coordinator) := by
  obtain ⟨resolved, hrlocation, hfile⟩ := h.file
  rw [loadRunConfig, resolveRlocation_ok.2 hrlocation]
  simp only [hfile, h.decoder, unmarshalConfig_runConfig]

theorem setup_binary (h : setup W path = .ok S) :
    W.sources.rlocation S.cfg.test.binaryPath = .ok S.testBinaryPath ∧
    S.cfg.fixtures.mapM (loadFixtureDescription W.sources) = .ok S.fixtures := by
  obtain ⟨cfg, -, h⟩ := bind_eq_ok.1 h
  obtain ⟨coordinatorBinPath, -, h⟩ := bind_eq_ok.1 h
  obtain ⟨testBinaryPath, hbinary, h⟩ := bind_eq_ok.1 h
  obtain ⟨fixtures, hfixtures, h⟩ := bind_eq_ok.1 h
  obtain ⟨wsKey, -, h⟩ := bind_eq_ok.1 h
  obtain ⟨sockPath, -, h⟩ := bind_eq_ok.1 h
  obtain ⟨-, -, h⟩ := bind_eq_ok.1 h
  cases h
  refine ⟨resolveRlocation_ok.1 ?_, hfixtures⟩
  cases hresolve : resolveRlocation W.sources cfg.test.binaryPath with
  | error e =>
    rw [hresolve] at hbinary
    cases hbinary
  | ok resolved =>
    rw [hresolve] at hbinary
    exact hbinary

theorem forall₂_of_mapM {α β : Type} {f : α → Except String β} {xs : List α} {ys : List β}
    (h : xs.mapM f = .ok ys) : List.Forall₂ (fun x y => f x = .ok y) xs ys := by
  induction xs generalizing ys with
  | nil =>
    cases h
    exact .nil
  | cons x xs ih =>
    rw [List.mapM_cons] at h
    obtain ⟨y, hy, h⟩ := bind_eq_ok.1 h
    obtain ⟨rest, hrest, h⟩ := bind_eq_ok.1 h
    cases h
    exact .cons hy (ih hrest)

/-! ### The fixtures -/

/-- A request is for one fixture, and the only one in the trace of its lease. -/
theorem takeLease_mem_acquireLease {n k : ℕ} {fx : ResolvedFixture} {clientID : String}
    {ttlSeconds startupTimeout : Int64} {answers : LeaseAnswers} {req : TakeLeaseRequest}
    (h : .takeLease k req ∈ (acquireLease n fx clientID ttlSeconds startupTimeout answers).trace) :
    k = n ∧ req = ⟨some fx.description, clientID, clientID, ttlSeconds, 1⟩ := by
  have hcall : .takeLease k req ∈ takeLeaseCall n fx clientID ttlSeconds answers →
      k = n ∧ req = ⟨some fx.description, clientID, clientID, ttlSeconds, 1⟩ := by
    intro h
    rcases List.mem_pair.1 h with heq | heq
    · exact Runner.Event.takeLease.inj heq
    · cases heq
  have htrace : ∀ resp, .takeLease k req ∈ takeLeaseTrace n fx clientID ttlSeconds startupTimeout answers resp →
      k = n ∧ req = ⟨some fx.description, clientID, clientID, ttlSeconds, 1⟩ := by
    intro resp h
    rcases List.mem_append.1 h with h | h
    · exact hcall h
    · rcases List.mem_cons.1 h with heq | h
      · cases heq
      · exact absurd (awaitLease_polling _ h) (by simp [IsPollEvent])
  rcases acquireLease_cases n fx clientID ttlSeconds startupTimeout answers with
    ⟨_, _, -, heq⟩ | ⟨resp, _, -, -, heq⟩ | ⟨resp, _, -, -, -, heq⟩
  · rw [heq] at h
    exact hcall h
  · rw [heq] at h
    exact htrace resp h
  · rw [heq] at h
    rcases List.mem_append.1 h with h | h
    · exact htrace resp h
    · cases List.mem_singleton.1 h

/-- The fixtures are asked for one after the other. -/
theorem takeLease_mem_leaseFixtures {n k : ℕ} {fixtures : List ResolvedFixture} {leases : List ActiveLease}
    {env : Env} {req : TakeLeaseRequest} (h : .takeLease k req ∈ (leaseFixtures W S n fixtures leases env).trace) :
    ∃ i fx, k = n + i ∧ fixtures[i]? = some fx ∧
      req = ⟨some fx.description, S.clientID, S.clientID, S.cfg.leaseTTLSeconds, 1⟩ := by
  induction fixtures generalizing n leases env with
  | nil => cases h
  | cons fx fixtures ih =>
    have hfirst : .takeLease k req ∈
        (acquireLease n fx S.clientID S.cfg.leaseTTLSeconds (Runner.startupTimeout S) (W.lease n)).trace →
        ∃ i fx', k = n + i ∧ (fx :: fixtures)[i]? = some fx' ∧
          req = ⟨some fx'.description, S.clientID, S.clientID, S.cfg.leaseTTLSeconds, 1⟩ := by
      intro h
      obtain ⟨rfl, rfl⟩ := takeLease_mem_acquireLease h
      exact ⟨0, fx, rfl, rfl, rfl⟩
    unfold leaseFixtures at h
    dsimp only at h
    split at h
    · exact hfirst h
    · split at h
      · exact hfirst h
      · rcases List.mem_append.1 h with h | h
        · exact hfirst h
        · rcases List.mem_cons.1 h with heq | h
          · cases heq
          · obtain ⟨i, fx', rfl, hfx, hreq⟩ := ih h
            exact ⟨i + 1, fx', by omega, hfx, hreq⟩

/-! ### What a run does -/

/-- The test reads one value for this name. -/
def Sees (strings : Multiset Bytes) (k v : Bytes) : Prop := ∀ v', some (k, v') ∈ strings.map splitEnv ↔ v' = v

/-- What a target prescribes: the leases of its fixtures, in their order and for a minute
each, the command line and the variables of its test, and the name of its report. The
variables have no `=` in their names. -/
def Prescribed (ctx : Context) (W : Runner.World) : Runner.Event → Prop
  | .takeLease n req => ∃ target fx, (fixtureTargets ctx)[n]? = some target ∧
      loadFixtureDescription W.sources ⟨target.label.name, target.descriptionFile⟩ = .ok fx ∧
      req.fixture = some fx.description ∧ req.ttlSeconds = 60
  | .testStarted binaryPath args strings =>
      W.sources.rlocation (rlocation ctx.workspaceName ctx.test) = .ok binaryPath ∧ args = ctx.testArgs ∧
        ((∀ m ∈ ctx.testEnv.members, equals ∉ utf8 m.1) → ∀ m ∈ ctx.testEnv.members, Sees strings (utf8 m.1) (utf8 m.2))
  | .report _ suite => suite.name = ctx.label
  | _ => True

/-- A variable that is configured is what the test reads for its name. -/
theorem sees_configured {environ : List Bytes} {injectedEnv configEnv : Env} {strings : Multiset Bytes} {k v : String}
    (h : Layered environ [encodeEnv injectedEnv, encodeEnv configEnv] strings) (hv : configEnv.lookup k = some v) :
    Sees strings (utf8 k) (utf8 v) := by
  have hentry : (encodeEnv configEnv).lookup (utf8 k) = some (utf8 v) :=
    Finmap.lookup_eq_some_iff.2 (Multiset.mem_map.2 ⟨⟨k, v⟩, Finmap.lookup_eq_some_iff.1 hv, rfl⟩)
  have hlayer : layered environ [encodeEnv injectedEnv, encodeEnv configEnv] (utf8 k) = some (utf8 v) := by
    rw [layered, overlay, overlay, overlay, Option.none_or, hentry, Option.some_or, Option.some_or]
  intro v'
  rw [h.values, hlayer]
  exact ⟨fun heq => (Option.some.inj heq).symm, fun heq => congrArg some heq.symm⟩

theorem prescribed_takeLease (hcfg : S.cfg = configOf ctx coordinator) (hsetup : setup W path = .ok S) {n : ℕ}
    {req : TakeLeaseRequest} (h : .takeLease n req ∈ (leasing W S).trace) : Prescribed ctx W (.takeLease n req) := by
  obtain ⟨i, fx, rfl, hfx, rfl⟩ := takeLease_mem_leaseFixtures h
  obtain ⟨-, hfixtures⟩ := setup_binary hsetup
  rw [hcfg] at hfixtures
  obtain ⟨hlength, hloaded⟩ := List.forall₂_iff_get.1 (forall₂_of_mapM hfixtures)
  obtain ⟨hi, rfl⟩ := List.getElem?_eq_some_iff.1 hfx
  have hsame : (configOf ctx coordinator).fixtures.length = (fixtureTargets ctx).length := List.length_map _
  have hi' : i < (fixtureTargets ctx).length := by omega
  refine ⟨(fixtureTargets ctx)[i], _, ?_, ?_, rfl, ?_⟩
  · rw [Nat.zero_add, List.getElem?_eq_getElem hi']
  · have hload := hloaded i (by omega) hi
    simpa [configOf, fixturesConfig] using hload
  · rw [hcfg]
    rfl

theorem prescribed_testStarted (hcfg : S.cfg = configOf ctx coordinator) (hsetup : setup W path = .ok S)
    {binaryPath : String} {args : List String} {strings : Multiset Bytes}
    (h : .testStarted binaryPath args strings ∈ (runTest W S (leasing W S).result).trace) :
    Prescribed ctx W (.testStarted binaryPath args strings) := by
  obtain ⟨injectedEnv, hok, hstarted⟩ := testStarted_of_runTest h
  have hsafe := safeName_leaseFixtures 0 S.fixtures [] (fun _ hname => absurd hname Finmap.notMem_empty) hok
  have hlayered := testStarted_layered_iff hstarted
  have hran : binaryPath = S.testBinaryPath ∧ args = S.cfg.test.args := by
    unfold runTestBinary at hstarted
    cases htest : W.test with
    | notStarted err =>
      rw [htest] at hstarted
      cases hstarted
    | ran took how =>
      rw [htest] at hstarted
      cases how <;>
        · simp only [List.mem_cons, List.not_mem_nil, or_false, reduceCtorEq] at hstarted
          obtain ⟨rfl, rfl, -⟩ := Runner.Event.testStarted.inj hstarted
          exact ⟨rfl, rfl⟩
  obtain ⟨rfl, rfl⟩ := hran
  rw [hcfg] at hlayered ⊢
  refine ⟨?_, rfl, fun hnames m hm => ?_⟩
  · have hbinary := (setup_binary hsetup).1
    rwa [hcfg] at hbinary
  · refine sees_configured (hlayered.2 ⟨fun name hname => equals_notMem_of_safeName (hsafe name hname), ?_⟩)
      (lookup_insertAll_of_mem ctx.testEnv.distinct hm)
    intro name hname
    obtain ⟨m', hm', rfl⟩ := mem_of_mem_insertAll hname
    exact hnames m' hm'

/-- Only the report writes one. -/
theorem report_of_runTest {result : Except String Env} {reportPath : String} {suite : JunitTestsuite}
    (h : .report reportPath suite ∈ (runTest W S result).trace) :
    ∃ exitCode duration, suite = junitSuite S.cfg.systemtestLabel exitCode duration := by
  cases result with
  | error e => cases h
  | ok injectedEnv =>
    have hran : .report reportPath suite ∉
        (runTestBinary S.testBinaryPath S.cfg.test.args W.environ injectedEnv S.cfg.test.env W.test).trace := by
      unfold runTestBinary
      cases W.test with
      | notStarted err => exact List.not_mem_nil
      | ran took how => cases how <;> simp
    unfold runTest at h
    dsimp only at h
    split at h
    · exact absurd h hran
    · rcases List.mem_append.1 h with h | h
      · exact absurd h hran
      · obtain ⟨-, heq⟩ := Runner.Event.report.inj (mem_writeJUnitReport h)
        exact ⟨_, _, heq⟩

/-- Whatever the attributes of a target are, a run that finds the file that the rule wrote
does what they say. -/
theorem run_prescribed (htext : systemtestImpl ctx = .ok text) (hfinds : Finds W.sources path text) :
    ∀ e ∈ (execute W path).trace, Prescribed ctx W e := by
  obtain ⟨-, -, coordinator, -, rfl⟩ := systemtestImpl_ok htext
  intro e he
  cases hsetup : setup W path with
  | error err =>
    rw [execute, hsetup] at he
    cases he
  | ok S =>
    have hcfg : S.cfg = configOf ctx coordinator :=
      (Except.ok.inj ((loadRunConfig_finds hfinds).symm.trans (setup_ok hsetup).1)).symm
    rw [execute_trace hsetup] at he
    rcases List.mem_append.1 he with he | he
    · have hphase := isLeaseEvent_leaseFixtures _ _ _ _ _ he
      cases e with
      | takeLease n req => exact prescribed_takeLease hcfg hsetup he
      | testStarted => cases hphase
      | report => cases hphase
      | _ => trivial
    rcases List.mem_append.1 he with he | he
    · have hphase := isTestEvent_runTest _ _ he
      cases e with
      | takeLease => cases hphase
      | testStarted binaryPath args strings => exact prescribed_testStarted hcfg hsetup he
      | report reportPath suite =>
        obtain ⟨exitCode, duration, rfl⟩ := report_of_runTest he
        rw [hcfg]
        rfl
      | _ => trivial
    · have hphase := isReleaseEvent_releaseAll _ _ he
      cases e with
      | takeLease => cases hphase
      | testStarted => cases hphase
      | report => cases hphase
      | _ => trivial

/-! ### A sample -/

def sampleContext : Context where
  workspaceName := "_main"
  label := "@@//:it"
  mode := "local"
  runner := some ⟨"../rules_systemtest_src+/runner"⟩
  coordinator := some ⟨"../rules_systemtest_src+/coordinator_local"⟩
  test := ⟨"it_test"⟩
  fixtures := [(⟨"", "redis"⟩, ⟨"redis.fixture.json"⟩), (⟨"db", "pg"⟩, ⟨"db/pg.fixture.json"⟩)]
  testArgs := ["--verbose", "say \"hi\""]
  testEnv := ⟨[("MODE", "fast"), ("GREETING", "a=b")], by decide⟩

def sampleText : Bytes := encodeIndent (runConfig sampleContext ⟨"../rules_systemtest_src+/coordinator_local"⟩)

def sampleRunfiles : Sources :=
  { sampleSources [] with
    readFile := fun path =>
      .ok (if path = "/runfiles/_main/it.run_config.json" then sampleText else utf8 "\x7b\x7d")
    unmarshalConfig := unmarshalConfig }

/-- Both leases are granted at once, and the test passes. -/
def sampleTargetWorld : Runner.World :=
  { sampleWorld [] (fun n => sampleLease ⟨succeeded, "l" ++ n.repr, ∅, []⟩ []) (.ran 1 (.exited 0)) with
    sources := sampleRunfiles }

theorem finds_sampleText : Finds sampleRunfiles "_main/it.run_config.json" sampleText :=
  ⟨rfl, "/runfiles/_main/it.run_config.json", rfl, rfl⟩

/-- The test reads the variable that its target sets. -/
theorem run_prescribed_sample : ∃ binaryPath args strings,
    .testStarted binaryPath args strings ∈ (execute sampleTargetWorld "_main/it.run_config.json").trace ∧
      args = ["--verbose", "say \"hi\""] ∧ Sees strings (utf8 "MODE") (utf8 "fast") := by
  obtain ⟨S, hsetup, hstarted⟩ : ∃ S, setup sampleTargetWorld "_main/it.run_config.json" = .ok S ∧
      (runTest sampleTargetWorld S (leasing sampleTargetWorld S).result).trace.any
        (fun e => e matches .testStarted _ _ _) = true := by
    rw [setup, show sampleTargetWorld.sources = sampleRunfiles from rfl, loadRunConfig_finds finds_sampleText]
    exact ⟨_, rfl, rfl⟩
  obtain ⟨e, he, hmatch⟩ := List.any_eq_true.1 hstarted
  have hmem : e ∈ (execute sampleTargetWorld "_main/it.run_config.json").trace := by
    rw [execute_trace hsetup]
    exact List.mem_append_right _ (List.mem_append_left _ he)
  have hprescribed := @run_prescribed sampleContext sampleTargetWorld _ sampleText rfl finds_sampleText e hmem
  cases e with
  | testStarted binaryPath args strings =>
    obtain ⟨-, hargs, hsees⟩ := hprescribed
    exact ⟨binaryPath, args, strings, hmem, hargs, hsees (by decide) ("MODE", "fast") List.mem_cons_self⟩
  | _ => cases hmatch

end RulesSystemtest.Rules
