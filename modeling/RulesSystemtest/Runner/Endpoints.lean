import RulesSystemtest.Runner.Ports
import RulesSystemtest.Runner.Run

/-! The endpoints of all fixtures in the environment of the test. The loop over the
fixtures lays the variables of each lease over those of the leases before it, so an
endpoint reaches the test unless another one, of any fixture, has the same variable
names and a different host or port. -/

namespace RulesSystemtest.Runner

open Library

variable {W : World} {S : Setup} {leases : List ActiveLease}

/-! ### One entry -/

/-- The part that the two variables of an entry have in common. -/
def varStem (fixtureName : String) (p : PortEntry) : String := envFragment fixtureName ++ "_" ++ envFragment p.name

/-- The variables of an entry of some fixture. -/
def namedVars (entry : String × PortEntry) : String → Option String :=
  entryVars (envFragment entry.1) entry.2

theorem namedVars_eq_some_iff {e : String × PortEntry} {k x : String} : namedVars e k = some x ↔
    e.2.tunnel = false ∧ (k = hostVar (envFragment e.1) (envFragment e.2.name) ∧ x = e.2.host ∨
      k = portVar (envFragment e.1) (envFragment e.2.name) ∧ x = itoa e.2.port) := by
  refine ⟨entryVars_eq_some, ?_⟩
  rintro ⟨ht, ⟨rfl, rfl⟩ | ⟨rfl, rfl⟩⟩
  · rw [namedVars, entryVars_host, endpoint, if_pos ⟨ht, rfl⟩]
    rfl
  · rw [namedVars, entryVars_port, endpoint, if_pos ⟨ht, rfl⟩]
    rfl

/-- Two entries keep out of each other's way when they have different names or the same
endpoint. -/
theorem agree_namedVars_iff (e e' : String × PortEntry) (ht : e.2.tunnel = false) (ht' : e'.2.tunnel = false) :
    Agree namedVars e e' ↔
      (varStem e.1 e.2 = varStem e'.1 e'.2 → e.2.host = e'.2.host ∧ e.2.port = e'.2.port) := by
  constructor
  · intro h hstem
    have hhost : hostVar (envFragment e.1) (envFragment e.2.name) = hostVar (envFragment e'.1) (envFragment e'.2.name) :=
      hostVar_eq_iff.2 hstem
    have hport : portVar (envFragment e.1) (envFragment e.2.name) = portVar (envFragment e'.1) (envFragment e'.2.name) :=
      portVar_eq_iff.2 hstem
    constructor
    · exact h _ _ _ (namedVars_eq_some_iff.2 ⟨ht, .inl ⟨rfl, rfl⟩⟩) (namedVars_eq_some_iff.2 ⟨ht', .inl ⟨hhost, rfl⟩⟩)
    · rw [← itoa_inj]
      exact h _ _ _ (namedVars_eq_some_iff.2 ⟨ht, .inr ⟨rfl, rfl⟩⟩) (namedVars_eq_some_iff.2 ⟨ht', .inr ⟨hport, rfl⟩⟩)
  · intro h k u v hu hv
    obtain ⟨-, ⟨hk, rfl⟩ | ⟨hk, rfl⟩⟩ := namedVars_eq_some_iff.1 hu <;>
      obtain ⟨-, ⟨hk', rfl⟩ | ⟨hk', rfl⟩⟩ := namedVars_eq_some_iff.1 hv
    · exact (h (hostVar_eq_iff.1 (hk.symm.trans hk'))).1
    · exact absurd (hk.symm.trans hk') (hostVar_ne_portVar _ _ _ _)
    · exact absurd (hk'.symm.trans hk) (hostVar_ne_portVar _ _ _ _)
    · exact congrArg itoa (h (portVar_eq_iff.1 (hk.symm.trans hk'))).2

/-! ### The loop over the fixtures -/

/-- The port entries of a lease, in the order in which they are visited. -/
def leaseEntries (W : World) (fx : ResolvedFixture) (lease : ActiveLease) : List (String × PortEntry) :=
  (((W.lease lease.stop).range.list lease.outputs).flatMap fun o => entries W.unmarshalPorts o.2).map (fx.name, ·)

def allEntries (W : World) (fixtures : List ResolvedFixture) (leases : List ActiveLease) : List (String × PortEntry) :=
  (fixtures.zip leases).flatMap fun held => leaseEntries W held.1 held.2

/-- The lease of a fixture is acquired, and its ports blobs decode. -/
def Acquires (W : World) (S : Setup) (n : ℕ) (fx : ResolvedFixture) (lease : ActiveLease) : Prop :=
  (acquireLease n fx S.clientID S.cfg.leaseTTLSeconds (startupTimeout S) (W.lease n)).result = .ok lease ∧
    ∀ o ∈ lease.outputs.toList, WellFormed W.unmarshalPorts o.2

theorem stop_of_acquired {n : ℕ} {fx : ResolvedFixture} {clientID : String} {ttlSeconds startupTimeout : Int64}
    {answers : LeaseAnswers} {lease : ActiveLease}
    (h : (acquireLease n fx clientID ttlSeconds startupTimeout answers).result = .ok lease) : lease.stop = n := by
  rcases acquireLease_cases n fx clientID ttlSeconds startupTimeout answers with
    ⟨_, _, -, heq⟩ | ⟨_, _, -, -, heq⟩ | ⟨resp, final, -, -, -, heq⟩
  · simp [heq] at h
  · simp [heq] at h
  · rw [heq] at h
    cases h
    rfl

/-- The variables of one lease. -/
theorem portEnvFromOutputs_lease {n : ℕ} {fx : ResolvedFixture} {lease : ActiveLease} (h : Acquires W S n fx lease) :
    ∃ portEnv : Env,
      portEnvFromOutputs W.unmarshalPorts fx.name ((W.lease n).range.list lease.outputs) = .ok portEnv ∧
      ∀ k, portEnv.lookup k = overlay namedVars (leaseEntries W fx lease) k := by
  have hwell : ∀ o ∈ (W.lease n).range.list lease.outputs, WellFormed W.unmarshalPorts o.2 :=
    fun o ho => h.2 o (((W.lease n).range.perm _).subset ho)
  obtain ⟨portEnv, henv, hlookup⟩ := portEnvFromOutputs_ok fx.name hwell
  refine ⟨portEnv, henv, fun k => ?_⟩
  rw [hlookup, leaseEntries, overlay_map, stop_of_acquired h.1]
  rfl

/-- If every fixture acquires its lease, the loop ends well, with the variables of all
entries over the ones that it started with. -/
theorem leaseFixtures_env (n : ℕ) (fixtures : List ResolvedFixture) (leases acquired : List ActiveLease) (env : Env)
    (hlength : acquired.length = fixtures.length)
    (h : ∀ i fx lease, fixtures[i]? = some fx → acquired[i]? = some lease → Acquires W S (n + i) fx lease) :
    ∃ env', (leaseFixtures W S n fixtures leases env).result = .ok env' ∧
      ∀ k, env'.lookup k = (overlay namedVars (allEntries W fixtures acquired) k).or (env.lookup k) := by
  induction fixtures generalizing n leases acquired env with
  | nil => exact ⟨env, rfl, fun k => rfl⟩
  | cons fx fixtures ih =>
    cases acquired with
    | nil => simp at hlength
    | cons lease acquired =>
      have hfirst : Acquires W S n fx lease := h 0 fx lease rfl rfl
      obtain ⟨portEnv, henv, hlookup⟩ := portEnvFromOutputs_lease hfirst
      have hrest : ∀ i fx' lease', fixtures[i]? = some fx' → acquired[i]? = some lease' →
          Acquires W S (n + 1 + i) fx' lease' := by
        intro i fx' lease' hfx hlease
        rw [Nat.add_assoc, Nat.add_comm 1 i]
        exact h (i + 1) fx' lease' hfx hlease
      obtain ⟨env', hok, hlookup'⟩ :=
        ih (n + 1) (leases ++ [lease]) acquired (portEnv ∪ env) (by simpa using hlength) hrest
      refine ⟨env', ?_, fun k => ?_⟩
      · unfold leaseFixtures
        simp only [hfirst.1, henv]
        exact hok
      · have hentries : allEntries W (fx :: fixtures) (lease :: acquired) =
            leaseEntries W fx lease ++ allEntries W fixtures acquired := rfl
        rw [hlookup', HashMap.lookup_union, hlookup, hentries, overlay_append, Option.or_assoc]

/-! ### All endpoints -/

/-- The endpoint of an entry that is not tunneled, in an output of a fixture's lease. -/
def Published (W : World) (S : Setup) (leases : List ActiveLease) (fixtureName : String) (p : PortEntry) : Prop :=
  p.tunnel = false ∧ ∃ fx lease, (fx, lease) ∈ S.fixtures.zip leases ∧ fx.name = fixtureName ∧
    ∃ o ∈ lease.outputs.toList, p ∈ entries W.unmarshalPorts o.2

/-- Every endpoint is found under the two names of its fixture and port. -/
def Intact (W : World) (S : Setup) (leases : List ActiveLease) (injectedEnv : Env) : Prop :=
  ∀ name p, Published W S leases name p →
    injectedEnv.lookup (hostVar (envFragment name) (envFragment p.name)) = some p.host ∧
    injectedEnv.lookup (portVar (envFragment name) (envFragment p.name)) = some (itoa p.port)

/-- All variables have the names of some endpoint. -/
def OnlyEndpoints (W : World) (S : Setup) (leases : List ActiveLease) (injectedEnv : Env) : Prop :=
  ∀ k x, injectedEnv.lookup k = some x → ∃ name p, Published W S leases name p ∧
    (k = hostVar (envFragment name) (envFragment p.name) ∨ k = portVar (envFragment name) (envFragment p.name))

/-- Endpoints under the same names are the same. -/
def Unclashing (W : World) (S : Setup) (leases : List ActiveLease) : Prop :=
  ∀ name p name' p', Published W S leases name p → Published W S leases name' p' →
    varStem name p = varStem name' p' → p.host = p'.host ∧ p.port = p'.port

theorem mem_allEntries {e : String × PortEntry} (ht : e.2.tunnel = false) :
    e ∈ allEntries W S.fixtures leases ↔ Published W S leases e.1 e.2 := by
  obtain ⟨name, p⟩ := e
  constructor
  · intro h
    obtain ⟨⟨fx, lease⟩, hheld, h⟩ := List.mem_flatMap.1 h
    obtain ⟨q, hq, heq⟩ := List.mem_map.1 h
    obtain ⟨o, ho, hq⟩ := List.mem_flatMap.1 hq
    cases heq
    exact ⟨ht, fx, lease, hheld, rfl, o, ((W.lease lease.stop).range.perm _).subset ho, hq⟩
  · rintro ⟨-, fx, lease, hheld, rfl, o, ho, hp⟩
    have ho' := ((W.lease lease.stop).range.perm _).symm.subset ho
    exact List.mem_flatMap.2 ⟨(fx, lease), hheld, List.mem_map.2 ⟨p, List.mem_flatMap.2 ⟨o, ho', hp⟩, rfl⟩⟩

/-- No variable of an entry is overwritten, exactly when all endpoints are intact. -/
theorem keeps_iff {env : Env} (hlookup : ∀ k, env.lookup k = overlay namedVars (allEntries W S.fixtures leases) k) :
    (∀ e ∈ allEntries W S.fixtures leases, ∀ k x, namedVars e k = some x →
      overlay namedVars (allEntries W S.fixtures leases) k = some x) ↔ Intact W S leases env := by
  simp only [← hlookup]
  constructor
  · intro h name p hp
    have hmem : (name, p) ∈ allEntries W S.fixtures leases := (mem_allEntries hp.1).2 hp
    exact ⟨h _ hmem _ _ (namedVars_eq_some_iff.2 ⟨hp.1, .inl ⟨rfl, rfl⟩⟩),
      h _ hmem _ _ (namedVars_eq_some_iff.2 ⟨hp.1, .inr ⟨rfl, rfl⟩⟩)⟩
  · intro h e hmem k x hx
    obtain ⟨ht, ⟨rfl, rfl⟩ | ⟨rfl, rfl⟩⟩ := namedVars_eq_some_iff.1 hx
    · exact (h e.1 e.2 ((mem_allEntries ht).1 hmem)).1
    · exact (h e.1 e.2 ((mem_allEntries ht).1 hmem)).2

/-- A tunneled entry agrees with all others. -/
theorem agrees_iff : (∀ e ∈ allEntries W S.fixtures leases, ∀ e' ∈ allEntries W S.fixtures leases,
    Agree namedVars e e') ↔ Unclashing W S leases := by
  constructor
  · intro h name p name' p' hp hp'
    have hmem : (name, p) ∈ allEntries W S.fixtures leases := (mem_allEntries hp.1).2 hp
    have hmem' : (name', p') ∈ allEntries W S.fixtures leases := (mem_allEntries hp'.1).2 hp'
    exact (agree_namedVars_iff (name, p) (name', p') hp.1 hp'.1).1 (h _ hmem _ hmem')
  · intro h e hmem e' hmem'
    by_cases ht : e.2.tunnel = false ∧ e'.2.tunnel = false
    · rw [agree_namedVars_iff e e' ht.1 ht.2]
      exact h e.1 e.2 e'.1 e'.2 ((mem_allEntries ht.1).1 hmem) ((mem_allEntries ht.2).1 hmem')
    · exact fun k x x' hx hx' => absurd ⟨(namedVars_eq_some_iff.1 hx).1, (namedVars_eq_some_iff.1 hx').1⟩ ht

/-- All endpoints of all fixtures reach the test, exactly when no two of them have the
same variable names and a different host or port. There are no other variables. -/
theorem endpoints_intact_iff (hacquired : leases.length = S.fixtures.length ∧
    ∀ n fx lease, S.fixtures[n]? = some fx → leases[n]? = some lease → Acquires W S n fx lease) :
    ∃ injectedEnv, (leasing W S).result = .ok injectedEnv ∧ OnlyEndpoints W S leases injectedEnv ∧
      (Intact W S leases injectedEnv ↔ Unclashing W S leases) := by
  obtain ⟨hlength, hleases⟩ := hacquired
  have hall : ∀ n fx lease, S.fixtures[n]? = some fx → leases[n]? = some lease → Acquires W S (0 + n) fx lease := by
    simpa only [Nat.zero_add] using hleases
  obtain ⟨env, hok, hlookup⟩ := leaseFixtures_env 0 S.fixtures [] leases ∅ hlength hall
  have hlookup : ∀ k, env.lookup k = overlay namedVars (allEntries W S.fixtures leases) k := by
    intro k
    rw [hlookup, Finmap.lookup_empty, Option.or_none]
  refine ⟨env, hok, fun k x hx => ?_, ?_⟩
  · rw [hlookup] at hx
    obtain ⟨e, hmem, hx⟩ := exists_of_overlay hx
    obtain ⟨ht, hk⟩ := namedVars_eq_some_iff.1 hx
    exact ⟨e.1, e.2, (mem_allEntries ht).1 hmem, hk.imp And.left And.left⟩
  · rw [← keeps_iff hlookup, ← agrees_iff]
    exact overlay_keeps_iff

/-- A plugin's outputs with one port. -/
def sampleOutputs (port : String) : BTreeMap Value :=
  (∅ : BTreeMap Value).insert "endpoints"
    (sampleOutput ("\x7b\"ports\":[\x7b\"name\":\"main\",\"host\":\"127.0.0.1\",\"port\":" ++ port ++ "\x7d]\x7d"))

/-- Two fixtures that have leases with one port each. -/
def samplePorts (labels : List Label) : World :=
  sampleWorld labels (fun n => sampleLease ⟨succeeded, "l" ++ n.repr, sampleOutputs (if n = 0 then "5432" else "5433"), []⟩ [])
    (.ran 0 (.exited 0))

def sampleHeld : List ActiveLease := [⟨"l0", sampleOutputs "5432", 0⟩, ⟨"l1", sampleOutputs "5433", 1⟩]

theorem acquires_samplePorts (label label' : Label) : ∀ n fx lease, (sampleSetup [label, label']).fixtures[n]? = some fx →
    sampleHeld[n]? = some lease → Acquires (samplePorts [label, label']) (sampleSetup [label, label']) n fx lease := by
  intro n fx lease hfx hlease
  have hwell : ∀ o ∈ (sampleOutputs "5432").toList, WellFormed unmarshal o.2 := by decide
  have hwell' : ∀ o ∈ (sampleOutputs "5433").toList, WellFormed unmarshal o.2 := by decide
  match n, hfx, hlease with
  | 0, rfl, rfl => exact ⟨rfl, hwell⟩
  | 1, rfl, rfl => exact ⟨rfl, hwell'⟩

theorem endpoints_intact_iff_sample : ∃ injectedEnv,
    (leasing (samplePorts [⟨"store", "db"⟩, ⟨"cache", "redis"⟩]) (sampleSetup [⟨"store", "db"⟩, ⟨"cache", "redis"⟩])).result =
      .ok injectedEnv ∧
    OnlyEndpoints (samplePorts [⟨"store", "db"⟩, ⟨"cache", "redis"⟩]) (sampleSetup [⟨"store", "db"⟩, ⟨"cache", "redis"⟩])
      sampleHeld injectedEnv ∧
    (Intact (samplePorts [⟨"store", "db"⟩, ⟨"cache", "redis"⟩]) (sampleSetup [⟨"store", "db"⟩, ⟨"cache", "redis"⟩])
      sampleHeld injectedEnv ↔
    Unclashing (samplePorts [⟨"store", "db"⟩, ⟨"cache", "redis"⟩]) (sampleSetup [⟨"store", "db"⟩, ⟨"cache", "redis"⟩])
      sampleHeld) :=
  endpoints_intact_iff ⟨rfl, acquires_samplePorts ⟨"store", "db"⟩ ⟨"cache", "redis"⟩⟩

set_option maxRecDepth 4000 in
/-- Two targets with one name, in two packages. -/
theorem endpoint_overwritten : ¬ ∀ (W : World) (path : String) (S : Setup) (targets : List FixtureTarget)
    (leases : List ActiveLease) (injectedEnv : Env), setup W path = .ok S → S.cfg.fixtures = fixturesConfig targets →
    (targets.map (·.label)).Nodup → leases.length = S.fixtures.length →
    (∀ n fx lease, S.fixtures[n]? = some fx → leases[n]? = some lease → Acquires W S n fx lease) →
    (leasing W S).result = .ok injectedEnv → Intact W S leases injectedEnv := by
  intro hall
  let labels : List Label := [⟨"blue", "db"⟩, ⟨"green", "db"⟩]
  obtain ⟨injectedEnv, hok, hport⟩ : ∃ injectedEnv, (leasing (samplePorts labels) (sampleSetup labels)).result =
      .ok injectedEnv ∧ injectedEnv.lookup "DB_MAIN_PORT" = some "5433" := ⟨_, rfl, by decide⟩
  have hsetup : setup (samplePorts labels) "_main/it.run_config.json" = .ok (sampleSetup labels) := rfl
  have hpublished : Published (samplePorts labels) (sampleSetup labels) sampleHeld "db" ⟨"main", "", false, "127.0.0.1", 5432⟩ :=
    ⟨rfl, _, _, List.mem_cons_self, rfl, _, List.mem_cons_self, by decide⟩
  obtain ⟨-, hfirst⟩ := hall _ _ _ (labels.map sampleTarget) sampleHeld injectedEnv hsetup rfl (by decide) rfl
    (acquires_samplePorts _ _) hok "db" _ hpublished
  have hname : portVar (envFragment "db") (envFragment "main") = "DB_MAIN_PORT" := by decide
  rw [hname, hport] at hfirst
  revert hfirst
  decide

end RulesSystemtest.Runner
