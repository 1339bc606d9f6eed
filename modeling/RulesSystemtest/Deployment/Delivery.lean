import RulesSystemtest.Coordinator.Reuse
import RulesSystemtest.Deployment.Requests
import RulesSystemtest.Plugins.Dummy
import RulesSystemtest.Runner.ChildEnv
import RulesSystemtest.Runner.Injected

/-! From the description of a fixture to the environment of the test. With plugins that
make ports of their inputs, as the dummy plugin does, what a test sees is determined by
its own configuration: which instance a fixture was leased on, who created it and what
the other runners do makes no difference. -/

namespace RulesSystemtest

open Library

variable {H : Host} {h : History} {w w' : World} {e : Event} {o : Obs}

/-! ### Outputs by recipe -/

/-- A lease is granted to a call that asked for it. -/
theorem Runs.asked (hr : Runs H h w) : ∀ id g, Outstanding h id g → Asked H h g.call g.admitted := by
  induction hr with
  | init _ =>
    intro id g hg
    cases hg
  | step hr hst ih =>
    intro id g hg
    rcases outstanding_step hg with ho | hg
    · cases step_cases hst with
      | attach hc _ | insert hc =>
        obtain ⟨-, rfl⟩ := Ledger.Entry.grant.inj (Option.some.inj ho)
        exact ((Runs.allAsked hr).calls _ _ _ hc).cons _
      | _ => cases ho
    · exact (ih id g hg).cons _

/-- If the recipe determines what an instance puts out, a lease has the outputs of the
recipe that it was granted for. -/
theorem Runs.outputs_of_recipe (hr : Runs H h w) (hsha : DigestInjective H h)
    (out : FixtureDescription → BTreeMap Value) (hout : ∀ d d', SameRecipe d d' → out d = out d')
    (hinst : ∀ i ∈ instances h, i.result.outputs = out i.admitted.desc) {id : LeaseId} {g : Grant}
    (hg : Outstanding h id g) : g.outputs = out g.admitted.desc := by
  obtain ⟨i, hi, hb⟩ := hr.lent.backed id g hg
  have hrecipe := sameRecipe_of_fp hsha (hr.allAsked.instances i hi) (hr.asked id g hg) hb.fp
  rw [← hb.outputs, hinst i hi, hout _ _ hrecipe]

/-! ### The dummy plugin -/

/-- The ports input of a description. -/
def FixtureDescription.portsInput (d : FixtureDescription) : String :=
  match d.inputs.get? "ports" with
  | some ⟨some (.str s)⟩ => s
  | _ => "\x7b\x7d"

theorem portsInput_createRequest (a : Admitted) (fixtureId : FixtureId) :
    Dummy.portsInput (createRequest a fixtureId) = a.desc.portsInput := rfl

theorem SameRecipe.portsInput {d d' : FixtureDescription} (h : SameRecipe d d') : d.portsInput = d'.portsInput := by
  have hinputs : d.inputs = d'.inputs := Std.ExtTreeMap.ext_getElem? fun {key} => h.inputs key
  rw [FixtureDescription.portsInput, hinputs]
  rfl

/-- An instance that is created in this step was created by the dummy plugin. -/
def Answered (fromStr : String → Except String (BTreeMap Dummy.JsonValue)) (t : Moment) : Prop :=
  match t.event, t.obs with
  | .createFixture _ _ reply, .created i => reply = .ok (Dummy.createFixture fromStr i.request)
  | _, _ => True

instance (fromStr : String → Except String (BTreeMap Dummy.JsonValue)) (t : Moment) : Decidable (Answered fromStr t) := by
  unfold Answered
  split
  · infer_instance
  · infer_instance

theorem Runs.outputs_of_dummy {fromStr : String → Except String (BTreeMap Dummy.JsonValue)} (hr : Runs H h w)
    (ha : ∀ t ∈ h, Answered fromStr t) : ∀ i ∈ instances h,
      i.result.outputs = Dummy.outputs fromStr i.admitted.desc.portsInput := by
  intro i hi
  obtain ⟨t, ht, hobs, fixtureId, before, progress, rest, hev, hreq, -, -, hres⟩ := hr.produced hi
  have hanswer := ha t ht
  simp only [Answered, hev, hobs, Dummy.createFixture, Except.ok.injEq] at hanswer
  cases before with
  | nil =>
    obtain ⟨hprogress, -⟩ := List.cons.inj hanswer
    obtain rfl := Except.ok.inj hprogress
    rw [← Option.some.inj hres, hreq, portsInput_createRequest]
  | cons x before => simp at hanswer

end RulesSystemtest

namespace RulesSystemtest.Deployment

open Library Runner Dummy

variable {H : Host} {D D' : State} {e : Event} {o : Obs} {h : History} {r : RunnerId} {m : Member}
  {fromStr : String → Except String (BTreeMap JsonValue)} {fixtures : List ResolvedFixture}

/-! ### What the fixtures of a test declare -/

/-- The ports that a fixture asks for. -/
def askedPorts (fromStr : String → Except String (BTreeMap JsonValue)) (fx : ResolvedFixture) :
    List (String × JsonValue) :=
  members fromStr fx.description.portsInput

def declared (fromStr : String → Except String (BTreeMap JsonValue)) (fx : ResolvedFixture) : List PortEntry :=
  (askedPorts fromStr fx).map fun p => portEntry p.1 (portOf p.2)

/-- The variables of the ports that the fixtures ask for. -/
def declaredEnv (fromStr : String → Except String (BTreeMap JsonValue)) (fixtures : List ResolvedFixture) : Env :=
  fixtures.foldl (fun env fx => (declared fromStr fx).foldl (setPortEnv (envFragment fx.name)) env) ∅

def AllFit (fromStr : String → Except String (BTreeMap JsonValue)) (fixtures : List ResolvedFixture) : Prop :=
  ∀ fx ∈ fixtures, ∀ p ∈ askedPorts fromStr fx, Fits p.2

theorem lookup_declaredEnv (k : String) : (declaredEnv fromStr fixtures).lookup k =
    overlay (fun fx => overlay (entryVars (envFragment fx.name)) (declared fromStr fx)) fixtures k := by
  have hfold := overlay_foldl (fun (env : Env) k => Finmap.lookup k env)
    (fun env (fx : ResolvedFixture) k =>
      @lookup_foldl_setPortEnv (envFragment fx.name) (declared fromStr fx) env k) ∅ fixtures k
  rwa [Finmap.lookup_empty, Option.or_none] at hfold

/-- Every port is found under its names. -/
def Delivered (fromStr : String → Except String (BTreeMap JsonValue)) (fixtures : List ResolvedFixture) (env : Env) :
    Prop :=
  ∀ fx ∈ fixtures, ∀ p ∈ askedPorts fromStr fx,
    env.lookup (hostVar (envFragment fx.name) (envFragment p.1)) = some "127.0.0.1" ∧
    env.lookup (portVar (envFragment fx.name) (envFragment p.1)) = some (portOf p.2).toNat.repr

/-- No two ports have the same names, unless they are one. -/
def Unclashing (fromStr : String → Except String (BTreeMap JsonValue)) (fixtures : List ResolvedFixture) : Prop :=
  ∀ fx ∈ fixtures, ∀ p ∈ askedPorts fromStr fx, ∀ fx' ∈ fixtures, ∀ p' ∈ askedPorts fromStr fx',
    envFragment fx.name ++ "_" ++ envFragment p.1 = envFragment fx'.name ++ "_" ++ envFragment p'.1 →
      portOf p.2 = portOf p'.2

/-- The ports of all fixtures, with the names of their fixtures. -/
def allDeclared (fromStr : String → Except String (BTreeMap JsonValue)) (fixtures : List ResolvedFixture) :
    List (String × PortEntry) :=
  fixtures.flatMap fun fx => (declared fromStr fx).map (fx.name, ·)

theorem lookup_declaredEnv_named (k : String) :
    (declaredEnv fromStr fixtures).lookup k = overlay namedVars (allDeclared fromStr fixtures) k := by
  rw [lookup_declaredEnv, allDeclared, overlay_flatMap]
  refine congrArg (fun f => overlay f fixtures k) ?_
  funext fx k
  rw [overlay_map]
  rfl

theorem mem_allDeclared {x : String × PortEntry} : x ∈ allDeclared fromStr fixtures ↔
    ∃ fx ∈ fixtures, ∃ p ∈ askedPorts fromStr fx, x = (fx.name, portEntry p.1 (portOf p.2)) := by
  simp only [allDeclared, declared, List.mem_flatMap, List.mem_map, exists_exists_and_eq_and, @eq_comm _ x]

theorem ofNat_inj {n n' : UInt64} (hn : n.toNat < 2 ^ 63) (hn' : n'.toNat < 2 ^ 63)
    (h : Int64.ofNat n.toNat = Int64.ofNat n'.toNat) : n = n' := by
  have hint := congrArg Int64.toInt h
  rw [Int64.toInt_ofNat_of_lt hn, Int64.toInt_ofNat_of_lt hn'] at hint
  exact UInt64.toNat_inj.1 (by omega)

/-- The fixtures declare variables with safe names only. -/
theorem safeName_declaredEnv : ∀ name ∈ declaredEnv fromStr fixtures, SafeName name := by
  intro name hname
  obtain ⟨x, hx⟩ := Finmap.mem_iff.1 hname
  rw [lookup_declaredEnv_named] at hx
  obtain ⟨_, -, hx⟩ := exists_of_overlay hx
  obtain ⟨-, ⟨rfl, -⟩ | ⟨rfl, -⟩⟩ := namedVars_eq_some_iff.1 hx
  · exact safeName_hostVar _ _
  · exact safeName_portVar _ _

theorem delivered_iff (hfit : AllFit fromStr fixtures) :
    Delivered fromStr fixtures (declaredEnv fromStr fixtures) ↔ Unclashing fromStr fixtures := by
  have hkeeps : Delivered fromStr fixtures (declaredEnv fromStr fixtures) ↔
      ∀ x ∈ allDeclared fromStr fixtures, ∀ k v, namedVars x k = some v →
        overlay namedVars (allDeclared fromStr fixtures) k = some v := by
    simp only [Delivered, lookup_declaredEnv_named]
    constructor
    · intro h x hx k v hv
      obtain ⟨fx, hfx, p, hp, rfl⟩ := mem_allDeclared.1 hx
      obtain ⟨hhost, hport⟩ := h fx hfx p hp
      rcases (entryVars_portEntry (hfit fx hfx p hp)).1 hv with ⟨rfl, rfl⟩ | ⟨rfl, rfl⟩
      · exact hhost
      · exact hport
    · intro h fx hfx p hp
      have hx := mem_allDeclared.2 ⟨fx, hfx, p, hp, rfl⟩
      have hfits := hfit fx hfx p hp
      exact ⟨h _ hx _ _ ((entryVars_portEntry hfits).2 (.inl ⟨rfl, rfl⟩)),
        h _ hx _ _ ((entryVars_portEntry hfits).2 (.inr ⟨rfl, rfl⟩))⟩
  rw [hkeeps, overlay_keeps_iff]
  constructor
  · intro h fx hfx p hp fx' hfx' p' hp' hstem
    have hagree := h _ (mem_allDeclared.2 ⟨fx, hfx, p, hp, rfl⟩) _ (mem_allDeclared.2 ⟨fx', hfx', p', hp', rfl⟩)
    obtain ⟨-, hport⟩ := (agree_namedVars_iff _ _ rfl rfl).1 hagree hstem
    exact ofNat_inj (hfit fx hfx p hp) (hfit fx' hfx' p' hp') hport
  · intro h x hx x' hx'
    obtain ⟨fx, hfx, p, hp, rfl⟩ := mem_allDeclared.1 hx
    obtain ⟨fx', hfx', p', hp', rfl⟩ := mem_allDeclared.1 hx'
    refine (agree_namedVars_iff _ _ rfl rfl).2 fun hstem => ⟨rfl, ?_⟩
    exact congrArg (fun n : UInt64 => Int64.ofNat n.toNat) (h fx hfx p hp fx' hfx' p' hp' hstem)

/-! ### What the leases of a runner put out -/

theorem Runs.held_outputs (hr : Runs H h D) (hf : FreshIds (served h)) (hsha : DigestInjective H (served h))
    (ha : ∀ t ∈ served h, Answered fromStr t) (hm : D.runners.lookup r = some m) {lease : ActiveLease}
    (hl : lease ∈ m.locals.leases) : ∃ fx, m.job.setup.fixtures[lease.stop]? = some fx ∧
      lease.outputs = Dummy.outputs fromStr fx.description.portsInput := by
  obtain ⟨fx, hfx, g, hg, hreq, hout⟩ := (hr.requested hf).held r m hm lease hl
  have hgranted := hr.coordinator.outputs_of_recipe hsha (fun d => Dummy.outputs fromStr d.portsInput)
    (fun d d' hd => congrArg (Dummy.outputs fromStr) hd.portsInput) (hr.coordinator.outputs_of_dummy ha) hg
  have hdesc : g.admitted.desc = fx.description := by
    have hfixture := g.admitted.fixture_eq
    rw [hreq] at hfixture
    exact (Option.some.inj hfixture).symm
  exact ⟨fx, hfx, by rw [← hout, hgranted, hdesc]⟩

/-- A lease whose ports were parsed has the variables that its fixture declares. -/
theorem leaseVars_declared {J : Job} (hdecode : J.unmarshalPorts = unmarshal) {lease : ActiveLease}
    {fx : ResolvedFixture} (hfx : J.setup.fixtures[lease.stop]? = some fx)
    (hout : lease.outputs = Dummy.outputs fromStr fx.description.portsInput) {env : Env}
    (hok : leaseEnv J lease = .ok env) : (∀ p ∈ askedPorts fromStr fx, Fits p.2) ∧
      ∀ k, leaseVars J lease k = overlay (entryVars (envFragment fx.name)) (declared fromStr fx) k := by
  have hlist : (J.range lease.stop).list lease.outputs = lease.outputs.toList := by
    have hperm := (J.range lease.stop).perm lease.outputs
    rw [hout, toList_outputs] at hperm
    rw [hout, toList_outputs]
    exact List.perm_singleton.1 hperm
  have henv : leaseEnv J lease =
      portEnvFromOutputs unmarshal fx.name (Dummy.outputs fromStr fx.description.portsInput).toList := by
    rw [leaseEnv, fixtureName, hfx, hlist, hdecode, hout]
    rfl
  have hfit : ∀ p ∈ askedPorts fromStr fx, Fits p.2 := by
    by_contra hbad
    obtain ⟨err, herr⟩ := portEnvFromOutputs_not_fits fx.name hbad
    cases hok.symm.trans (henv.trans herr)
  obtain ⟨env', henv', hlookup⟩ := portEnvFromOutputs_ok fx.name (wellFormed_outputs.2 hfit)
  refine ⟨hfit, fun k => ?_⟩
  have hentries := entries_outputs hfit
  rw [leaseVars, henv, henv', declared, askedPorts, ← hentries, ← hlookup k]
  rfl

/-- When the test can start, the variables are those that the fixtures declare. -/
theorem injectedEnv_eq {J : Job} {L : Local} (hL : L.Sound J) (hI : L.Injected J) (hs : L.stage = .leasing [])
    (hdecode : J.unmarshalPorts = unmarshal) (hout : ∀ lease ∈ L.leases, ∃ fx,
      J.setup.fixtures[lease.stop]? = some fx ∧ lease.outputs = Dummy.outputs fromStr fx.description.portsInput) :
    AllFit fromStr J.setup.fixtures ∧ L.injectedEnv = declaredEnv fromStr J.setup.fixtures := by
  have heach : List.Forall₂ (fun lease fx => (∀ p ∈ askedPorts fromStr fx, Fits p.2) ∧
      ∀ k, leaseVars J lease k = overlay (entryVars (envFragment fx.name)) (declared fromStr fx) k)
      L.leases J.setup.fixtures := by
    refine ((List.forall₂_and_left (p := (· ∈ L.leases)) _ _).2 ⟨fun _ h => h, hL.complete hs⟩).imp ?_
    rintro lease fx ⟨hlease, hfx⟩
    obtain ⟨fx', hfx', ho⟩ := hout lease hlease
    obtain rfl := Option.some.inj (hfx.symm.trans hfx')
    obtain ⟨env, henv⟩ := hI.parsed lease hlease
    exact leaseVars_declared hdecode hfx ho henv
  constructor
  · intro fx hfx
    obtain ⟨n, hn, rfl⟩ := List.mem_iff_getElem.1 hfx
    have hn' : n < L.leases.length := heach.length_eq.symm ▸ hn
    exact ((List.forall₂_iff_get.1 heach).2 n hn' hn).1
  · refine Finmap.ext_lookup fun k => ?_
    rw [hI.lookup, lookup_declaredEnv]
    exact overlay_congr (heach.imp fun _ _ h => h.2 k)

/-! ### What a test was started with -/

theorem testStarted_moves {J : Job} {L L' : Local} {i : Input} {t : List Runner.Event} (hmoves : Moves J L i t L')
    {path : String} {args : List String} {strings : Multiset Bytes} (ht : .testStarted path args strings ∈ t) :
    L.stage = .leasing [] ∧ path = J.setup.testBinaryPath ∧ args = J.setup.cfg.test.args ∧
      strings = mergeEnv J.environ [encodeEnv L.injectedEnv, encodeEnv J.setup.cfg.test.env] := by
  cases hmoves with
  | started hs =>
    obtain ⟨rfl, rfl, rfl⟩ := Runner.Event.testStarted.inj (List.mem_singleton.1 ht)
    exact ⟨hs, rfl, rfl, rfl⟩
  | took _ _ hsettled | decided _ _ hsettled =>
    cases hsettled <;> simp at ht
  | ended _ he =>
    rcases mem_stepEnded he ht with ⟨_, heq⟩ | ⟨_, _, heq⟩
    · cases heq
    · cases heq
  | _ => simp at ht

/-- The test is started with the variables that its fixtures declare, between those of the
host and those of its configuration. -/
structure StartedWith (fromStr : String → Except String (BTreeMap JsonValue)) (J : Job) (path : String)
    (args : List String) (strings : Multiset Bytes) : Prop where
  path : path = J.setup.testBinaryPath
  args : args = J.setup.cfg.test.args
  strings : strings = mergeEnv J.environ [encodeEnv (declaredEnv fromStr J.setup.fixtures), encodeEnv J.setup.cfg.test.env]
  fits : AllFit fromStr J.setup.fixtures

theorem startedWith_moves (hr : Runs H h D) (hf : FreshIds (served h)) (hsha : DigestInjective H (served h))
    (ha : ∀ t ∈ served h, Answered fromStr t) (hm : D.runners.lookup r = some m)
    (hdecode : m.job.unmarshalPorts = unmarshal) {i : Input} {t : List Runner.Event} {L : Local}
    (hst : m.locals.step m.job i = some (t, L)) {path : String} {args : List String} {strings : Multiset Bytes}
    (ht : .testStarted path args strings ∈ t) : StartedWith fromStr m.job path args strings := by
  obtain ⟨hs, hpath, hargs, rfl⟩ := testStarted_moves (moves_of_step hst) ht
  have hheld : m.locals.stage.holding = true := by rw [hs]; rfl
  obtain ⟨hrun, hran, -⟩ := hr.ran hm
  obtain ⟨hfit, henv⟩ := injectedEnv_eq (hr.sound hm) (injected_run hran hheld) hs hdecode
    fun lease hl => hr.held_outputs hf hsha ha hm hl
  exact ⟨hpath, hargs, by rw [henv], hfit⟩

/-- What a runner did, it did before this step or in it. -/
theorem mem_didBy_step (hst : Step H D e o D') (hm : D'.runners.lookup r = some m) {ev : Runner.Event}
    (hev : ev ∈ didBy r (⟨D, e, o, D'⟩ :: h)) : ∃ m₀, D.runners.lookup r = some m₀ ∧ m₀.job = m.job ∧
      (ev ∈ didBy r h ∨ ∃ i t L, m₀.locals.step m₀.job i = some (t, L) ∧ ev ∈ t) := by
  cases hst with
  | @start r' J _ =>
    simp only [HashMap.lookup_insert] at hm
    by_cases hr : r = r'
    · simp only [didBy, hr, if_true] at hev
      cases hev
    · rw [if_neg hr] at hm
      simp only [didBy, Ne.symm hr, if_false] at hev
      exact ⟨m, hm, rfl, .inl hev⟩
  | @send r' _ m' _ _ _ _ hm' _ _ hst | @receive r' _ m' _ _ _ _ hm' _ _ _ hst | @act _ r' m' _ _ _ hm' _ hst =>
    simp only [HashMap.lookup_insert] at hm
    by_cases hr : r = r'
    · subst hr
      rw [if_pos rfl] at hm
      obtain rfl := Option.some.inj hm
      simp only [didBy, if_true] at hev
      exact ⟨m', hm', rfl, (List.mem_append.1 hev).imp id fun hev => ⟨_, _, _, hst, hev⟩⟩
    · rw [if_neg hr] at hm
      simp only [didBy, Ne.symm hr, if_false] at hev
      exact ⟨m, hm, rfl, .inl hev⟩
  | @crash r' =>
    simp only [HashMap.lookup_erase] at hm
    split at hm
    · cases hm
    · exact ⟨m, hm, rfl, .inl hev⟩
  | _ => exact ⟨m, hm, rfl, .inl hev⟩

theorem digestInjective_hereditary (H : Host) : Hereditary (DigestInjective H) := by
  intro t h hinj x hx y hy
  exact hinj x (List.mem_append_right _ hx) y (List.mem_append_right _ hy)

theorem answered_hereditary : Hereditary fun h : RulesSystemtest.History => ∀ t ∈ h, Answered fromStr t :=
  fun _ _ h t ht => h t (List.mem_cons_of_mem _ ht)

theorem Runs.startedWith (hr : Runs H h D) (hf : FreshIds (served h)) (hsha : DigestInjective H (served h))
    (ha : ∀ t ∈ served h, Answered fromStr t) : ∀ r m, D.runners.lookup r = some m →
      m.job.unmarshalPorts = unmarshal → ∀ path args strings, .testStarted path args strings ∈ didBy r h →
        StartedWith fromStr m.job path args strings := by
  refine Machine.Run.invariant (A := fun h => (FreshIds (served h) ∧ DigestInjective H (served h)) ∧
    ∀ t ∈ served h, Answered fromStr t) ?_ (I := fun h D => ∀ r m, D.runners.lookup r = some m →
      m.job.unmarshalPorts = unmarshal → ∀ path args strings, .testStarted path args strings ∈ didBy r h →
        StartedWith fromStr m.job path args strings) ?_ ?_ hr ⟨⟨hf, hsha⟩, ha⟩
  · exact ((served_hereditary freshIds_hereditary).and (served_hereditary (digestInjective_hereditary H))).and
      (served_hereditary answered_hereditary)
  · rintro _ _ r m _ _ path args strings ht
    cases ht
  · intro h D e o D' hr hassumed ih hst r m hm hdecode path args strings ht
    obtain ⟨m₀, hm₀, hjob, ht | ⟨i, t, L, hmove, ht⟩⟩ := mem_didBy_step (step_cases hst) hm ht
    · exact hjob ▸ ih r m₀ hm₀ (hjob ▸ hdecode) path args strings ht
    · obtain ⟨⟨hf, hsha⟩, ha⟩ := hassumed
      rw [← hjob] at hdecode ⊢
      exact startedWith_moves hr (served_hereditary freshIds_hereditary _ _ hf)
        (served_hereditary (digestInjective_hereditary H) _ _ hsha)
        (served_hereditary answered_hereditary _ _ ha) hm₀ hdecode hmove ht

/-- A test is started with the variables that its fixtures declare, whoever created the
instances that it shares. It finds all ports exactly when no two of them have the same
names, and reads what was set last if its configuration sets no name with `=` in it. -/
theorem test_gets_declared_ports (hr : Runs H h D) (hf : FreshIds (served h)) (hsha : DigestInjective H (served h))
    (ha : ∀ t ∈ served h, Answered fromStr t) (hm : D.runners.lookup r = some m)
    (hdecode : m.job.unmarshalPorts = unmarshal) {path : String} {args : List String} {strings : Multiset Bytes}
    (ht : .testStarted path args strings ∈ didBy r h) :
    StartedWith fromStr m.job path args strings ∧
    (Delivered fromStr m.job.setup.fixtures (declaredEnv fromStr m.job.setup.fixtures) ↔
      Unclashing fromStr m.job.setup.fixtures) ∧
    ((∀ name ∈ m.job.setup.cfg.test.env, equals ∉ utf8 name) → Layered m.job.environ
      [encodeEnv (declaredEnv fromStr m.job.setup.fixtures), encodeEnv m.job.setup.cfg.test.env] strings) := by
  have hstarted := hr.startedWith hf hsha ha r m hm hdecode path args strings ht
  refine ⟨hstarted, delivered_iff hstarted.fits, fun hcfg => ?_⟩
  rw [hstarted.strings]
  refine layered_mergeEnv ?_
  simp only [List.mem_cons, List.not_mem_nil, or_false, forall_eq_or_imp, forall_eq, forall_mem_encodeEnv]
  exact ⟨fun name hname => equals_notMem_of_safeName (safeName_declaredEnv name hname), hcfg⟩

/-! ### A sample -/

/-- What the JSON decoder makes of one ports input. -/
def samplePortsInput (s : String) : Except String (BTreeMap JsonValue) :=
  if s = "\x7b\"main\":\"6379\"\x7d" then .ok ((∅ : BTreeMap JsonValue).insert "main" (.string "6379"))
  else .error "expected value at line 1 column 1"

def samplePortsFixture : ResolvedFixture :=
  ⟨"redis", { sampleDesc "redis" with
    inputs := (∅ : BTreeMap Value).insert "ports" ⟨some (.str "\x7b\"main\":\"6379\"\x7d")⟩ }⟩

def samplePortsJob : Job :=
  { sampleJob "redis" "alice" with
    setup := { (sampleJob "redis" "alice").setup with fixtures := [samplePortsFixture] } }

def samplePortsOutputs : BTreeMap Value :=
  (∅ : BTreeMap Value).insert "endpoints" (sampleOutput ("\x7b\"ports\":[\x7b\"host\":\"127.0.0.1\",\"name\":\"main\"," ++
    "\"port\":6379,\"protocol\":\"tcp\",\"tunnel\":false\x7d]\x7d"))

/-- The plugin creates the fixture with these outputs. -/
def putsOut (outputs : BTreeMap Value) : RulesSystemtest.Event → RulesSystemtest.Event
  | .createFixture c fixtureId _ =>
    .createFixture c fixtureId (.ok [.ok ⟨4, [], some ⟨outputs, 60, utf8 "stub", []⟩⟩])
  | e => e

def samplePortsProvision : List RulesSystemtest.Event :=
  (sampleTake 0 "redis" "alice" "l0" "6379").tail.map (putsOut samplePortsOutputs)

set_option maxRecDepth 4000 in
/-- The second test shares the instance that was created for the first. -/
theorem test_gets_declared_ports_sample :
    let run := sampleRun (sampleLeased 0 0 samplePortsJob samplePortsProvision ++ sampleEnd 0 1 ++
      sampleLeased 1 2 samplePortsJob [.reuse 2 ⟨"l1"⟩])
    ∃ path args strings, .testStarted path args strings ∈ didBy 1 run.1 ∧
      StartedWith samplePortsInput samplePortsJob path args strings := by
  intro run
  obtain ⟨m, hm, hjob⟩ : ∃ m, run.2.runners.lookup 1 = some m ∧ m.job = samplePortsJob := ⟨_, rfl, rfl⟩
  have hstarted : (didBy 1 run.1).any (fun ev => ev matches .testStarted _ _ _) = true := by decide
  obtain ⟨ev, hev, hmatch⟩ := List.any_eq_true.1 hstarted
  cases ev with
  | testStarted path args strings =>
    refine ⟨path, args, strings, hev, ?_⟩
    rw [← hjob]
    exact (test_gets_declared_ports (sampleRun_runs _) (by decide) (by decide) (by decide +kernel) hm
      (hjob ▸ rfl) hev).1
  | _ => cases hmatch

end RulesSystemtest.Deployment
