import RulesSystemtest.Runner.Endpoints

/-! What the test reads from its environment. Every layer gives names values, and the
last layer that sets a name decides. The strings of `mergeEnv` say the same to a reader
who splits them again at the first `=`, unless an overlay sets a name with `=` in it. -/

namespace RulesSystemtest.Runner

open Library

variable {base : List Bytes} {overlays : List (HashMap Bytes Bytes)} {k v : Bytes}

/-! ### The layers -/

/-- The value that a base string gives a name. A string without `=` gives none. -/
def baseVar (kv k : Bytes) : Option Bytes :=
  match splitEnv kv with
  | some (k', v) => if k = k' then some v else none
  | none => none

/-- The value of a name in the last overlay that has it, else in the last base string that has it. -/
def layered (base : List Bytes) (overlays : List (HashMap Bytes Bytes)) (k : Bytes) : Option Bytes :=
  (overlay (fun vars k => Finmap.lookup k vars) overlays k).or (overlay baseVar base k)

/-- Every string splits into a name and a value, no two have one name, and the values are
those of the layers. -/
structure Layered (base : List Bytes) (overlays : List (HashMap Bytes Bytes)) (env : Multiset Bytes) : Prop where
  splits : none ∉ env.map splitEnv
  distinct : (env.map fun s => (splitEnv s).map Prod.fst).Nodup
  values : ∀ k v, some (k, v) ∈ env.map splitEnv ↔ layered base overlays k = some v

theorem lookup_mergeBase (merged : HashMap Bytes Bytes) (kv k : Bytes) :
    (mergeBase merged kv).lookup k = (baseVar kv k).or (merged.lookup k) := by
  unfold mergeBase baseVar
  cases splitEnv kv with
  | none => exact Option.none_or.symm
  | some kv =>
    dsimp only
    rw [HashMap.lookup_insert]
    split
    · exact Option.some_or.symm
    · exact Option.none_or.symm

theorem lookup_merge (base : List Bytes) (overlays : List (HashMap Bytes Bytes)) (k : Bytes) :
    (merge base overlays).lookup k = layered base overlays k := by
  have hbase : (base.foldl mergeBase ∅).lookup k = overlay baseVar base k := by
    have hfold := overlay_foldl (fun merged k => Finmap.lookup k merged) lookup_mergeBase ∅ base k
    rwa [Finmap.lookup_empty, Option.or_none] at hfold
  have hoverlays := overlay_foldl (fun merged k => Finmap.lookup k merged)
    (fun merged vars k => HashMap.lookup_union vars merged k) (base.foldl mergeBase ∅) overlays k
  rw [hbase] at hoverlays
  exact hoverlays

/-! ### Names with the separator -/

theorem splitEnv_join (hk : equals ∉ k) (v : Bytes) : splitEnv (k ++ equals :: v) = some (k, v) :=
  splitFirst_append hk v

theorem equals_notMem_of_splitEnv {s : Bytes} (h : splitEnv s = some (k, v)) : equals ∉ k :=
  (splitFirst_eq_some_iff.1 h).2

theorem equals_notMem_of_baseVar {kv : Bytes} (h : baseVar kv k = some v) : equals ∉ k := by
  unfold baseVar at h
  split at h
  · next k' _ hsplit =>
    split at h
    · next hk =>
      rw [hk]
      exact equals_notMem_of_splitEnv hsplit
    · cases h
  · cases h

/-- Only an overlay can set a name with the separator. -/
theorem exists_overlay_of_layered (h : layered base overlays k = some v) (hk : equals ∈ k) :
    ∃ vars ∈ overlays, k ∈ vars := by
  rcases Option.or_eq_some_iff.1 h with hover | ⟨-, hover⟩
  · obtain ⟨vars, hvars, hlookup⟩ := exists_of_overlay hover
    exact ⟨vars, hvars, Finmap.mem_iff.2 ⟨v, hlookup⟩⟩
  · obtain ⟨kv, -, hvar⟩ := exists_of_overlay hover
    exact absurd hk (equals_notMem_of_baseVar hvar)

theorem layered_of_mem (base : List Bytes) {vars : HashMap Bytes Bytes} (hvars : vars ∈ overlays) (hk : k ∈ vars) :
    ∃ v, layered base overlays k = some v := by
  obtain ⟨v, hlookup⟩ := Finmap.mem_iff.1 hk
  obtain ⟨u, hu⟩ := overlay_isSome (f := fun vars k => Finmap.lookup k vars) hvars hlookup
  exact ⟨u, Option.or_eq_some_iff.2 (.inl hu)⟩

/-- The strings of `mergeEnv` split into the entries of the map, if no name has the separator. -/
theorem map_splitEnv_mergeEnv (base : List Bytes) (h : ∀ vars ∈ overlays, ∀ k ∈ vars, equals ∉ k) :
    (mergeEnv base overlays).map splitEnv = (merge base overlays).entries.map fun kv => some (kv.1, kv.2) := by
  unfold mergeEnv
  rw [Multiset.map_map]
  refine Multiset.map_congr rfl fun kv hkv => ?_
  have hlookup : layered base overlays kv.1 = some kv.2 := by
    rw [← lookup_merge]
    exact Finmap.lookup_eq_some_iff.2 hkv
  refine splitEnv_join (fun hk => ?_) kv.2
  obtain ⟨vars, hvars, hmem⟩ := exists_overlay_of_layered hlookup hk
  exact h vars hvars kv.1 hmem hk

theorem layered_mergeEnv (h : ∀ vars ∈ overlays, ∀ k ∈ vars, equals ∉ k) :
    Layered base overlays (mergeEnv base overlays) := by
  have hmap := map_splitEnv_mergeEnv base h
  refine ⟨?_, ?_, fun k v => ?_⟩
  · rw [hmap]
    simp
  · have hnames : (mergeEnv base overlays).map (fun s => (splitEnv s).map Prod.fst) =
        ((mergeEnv base overlays).map splitEnv).map (Option.map Prod.fst) :=
      (Multiset.map_map (Option.map Prod.fst) splitEnv _).symm
    rw [hnames, hmap, Multiset.map_map]
    have hkeys := (merge base overlays).nodupKeys.nodup_keys.map (Option.some_injective Bytes)
    simpa [Multiset.keys, Multiset.map_map] using hkeys
  · rw [hmap, ← lookup_merge, Finmap.lookup_eq_some_iff, Multiset.mem_map]
    constructor
    · rintro ⟨⟨k', v'⟩, hmem, heq⟩
      cases heq
      exact hmem
    · intro hmem
      exact ⟨⟨k, v⟩, hmem, rfl⟩

/-- The strings of `mergeEnv` split into the values of the layers exactly when no overlay
sets a name with `=` in it. -/
theorem mergeEnv_layered_iff (base : List Bytes) (overlays : List (HashMap Bytes Bytes)) :
    Layered base overlays (mergeEnv base overlays) ↔ ∀ vars ∈ overlays, ∀ k ∈ vars, equals ∉ k := by
  constructor
  · intro h vars hvars k hk
    obtain ⟨v, hv⟩ := layered_of_mem base hvars hk
    obtain ⟨s, -, hsplit⟩ := Multiset.mem_map.1 ((h.values k v).2 hv)
    exact equals_notMem_of_splitEnv hsplit
  · exact layered_mergeEnv

/-- A test environment with a variable `A` and a variable `A=B`. -/
def sampleVars : HashMap Bytes Bytes :=
  (Finmap.insert (utf8 "A") (utf8 "x") ∅).insert (utf8 "A=B") (utf8 "y")

/-- The variable `A=B` becomes a second variable `A`. -/
theorem mergeEnv_duplicates_name : ¬ ∀ base overlays, Layered base overlays (mergeEnv base overlays) := by
  intro h
  have hdistinct := (h [] [sampleVars]).distinct
  revert hdistinct
  decide

/-! ### The test -/

variable {W : World} {S : Setup} {env env' : Env}

theorem forall_mem_encodeEnv {p : Bytes → Prop} : (∀ k ∈ encodeEnv env, p k) ↔ ∀ name ∈ env, p (utf8 name) := by
  simp only [Finmap.mem_def, encodeEnv, Multiset.keys, Multiset.map_map, Function.comp_apply, Multiset.mem_map,
    forall_exists_index, and_imp, forall_apply_eq_imp_iff₂]

theorem equals_notMem_of_safeName {name : String} (h : SafeName name) : equals ∉ utf8 name := by
  intro hmem
  have hsafe : '=' ∈ safe := h '=' (mem_of_mem_toUTF8 (by decide) hmem)
  revert hsafe
  decide

theorem safeName_portEnvFromOutputs {decode : Bytes → Except String PortsSchema} {fixtureName : String}
    {outputs : List (String × Value)} (h : portEnvFromOutputs decode fixtureName outputs = .ok env) :
    ∀ name ∈ env, SafeName name := by
  have hwell : ∀ o ∈ outputs, WellFormed decode o.2 := by
    by_contra hbad
    simp only [not_forall, exists_prop] at hbad
    obtain ⟨e, he⟩ := portEnvFromOutputs_error fixtureName hbad
    rw [he] at h
    cases h
  obtain ⟨env', hok, hlookup⟩ := portEnvFromOutputs_ok fixtureName hwell
  rw [hok] at h
  cases h
  intro name hname
  obtain ⟨x, hx⟩ := Finmap.mem_iff.1 hname
  rw [hlookup] at hx
  obtain ⟨p, -, hp⟩ := exists_of_overlay hx
  obtain ⟨-, ⟨rfl, -⟩ | ⟨rfl, -⟩⟩ := entryVars_eq_some hp
  · exact safeName_hostVar _ _
  · exact safeName_portVar _ _

/-- The runner injects variables with safe names only. -/
theorem safeName_leaseFixtures (n : ℕ) (fixtures : List ResolvedFixture) (leases : List ActiveLease)
    (hsafe : ∀ name ∈ env, SafeName name) (h : (leaseFixtures W S n fixtures leases env).result = .ok env') :
    ∀ name ∈ env', SafeName name := by
  induction fixtures generalizing n leases env with
  | nil =>
    cases h
    exact hsafe
  | cons fx fixtures ih =>
    unfold leaseFixtures at h
    dsimp only at h
    split at h
    · cases h
    · split at h
      · cases h
      · next portEnv hport =>
        refine ih (n + 1) _ (fun name hname => ?_) h
        rcases Finmap.mem_union.1 hname with hname | hname
        · exact safeName_portEnvFromOutputs hport name hname
        · exact hsafe name hname

/-- The test sees the values of the layers exactly when no variable that is injected or
configured has `=` in its name. -/
theorem testStarted_layered_iff {path binaryPath : String} {args args' : List String} {environ : List Bytes}
    {injectedEnv configEnv : Env} {answer : TestAnswer} {strings : Multiset Bytes}
    (h : .testStarted path args' strings ∈
      (runTestBinary binaryPath args environ injectedEnv configEnv answer).trace) :
    Layered environ [encodeEnv injectedEnv, encodeEnv configEnv] strings ↔
      (∀ name ∈ injectedEnv, equals ∉ utf8 name) ∧ ∀ name ∈ configEnv, equals ∉ utf8 name := by
  have hstrings : strings = mergeEnv environ [encodeEnv injectedEnv, encodeEnv configEnv] := by
    unfold runTestBinary at h
    cases answer with
    | notStarted err => cases h
    | ran took how =>
      cases how with
      | exited status => simp_all
      | signaled => simp_all
      | lost err => simp_all
  rw [hstrings, mergeEnv_layered_iff]
  simp only [List.mem_cons, List.not_mem_nil, or_false, forall_eq_or_imp, forall_eq, forall_mem_encodeEnv]

theorem testStarted_of_runTest {path : String} {args : List String} {strings : Multiset Bytes}
    {result : Except String Env} (h : .testStarted path args strings ∈ (runTest W S result).trace) :
    ∃ injectedEnv, result = .ok injectedEnv ∧ .testStarted path args strings ∈
      (runTestBinary S.testBinaryPath S.cfg.test.args W.environ injectedEnv S.cfg.test.env W.test).trace := by
  cases result with
  | error e => cases h
  | ok injectedEnv =>
    refine ⟨injectedEnv, rfl, ?_⟩
    unfold runTest at h
    dsimp only at h
    split at h
    · exact h
    · rcases List.mem_append.1 h with h | h
      · exact h
      · cases mem_writeJUnitReport h

/-- In a whole run, that comes down to the names that the user configured: the runner
injects safe ones only. -/
theorem execute_layered_iff {path binaryPath : String} {args : List String} {strings : Multiset Bytes}
    (hsetup : setup W path = .ok S) (h : .testStarted binaryPath args strings ∈ (execute W path).trace) :
    ∃ injectedEnv, (leasing W S).result = .ok injectedEnv ∧
      (Layered W.environ [encodeEnv injectedEnv, encodeEnv S.cfg.test.env] strings ↔
        ∀ name ∈ S.cfg.test.env, equals ∉ utf8 name) := by
  rw [execute_trace hsetup] at h
  rcases List.mem_append.1 h with hlease | h
  · cases isLeaseEvent_leaseFixtures _ _ _ _ _ hlease
  rcases List.mem_append.1 h with htest | hrelease
  · obtain ⟨injectedEnv, hok, hstarted⟩ := testStarted_of_runTest htest
    have hsafe := safeName_leaseFixtures 0 S.fixtures [] (fun _ hname => absurd hname Finmap.notMem_empty) hok
    refine ⟨injectedEnv, hok, ?_⟩
    rw [testStarted_layered_iff hstarted, and_iff_right]
    exact fun name hname => equals_notMem_of_safeName (hsafe name hname)
  · cases isReleaseEvent_releaseAll _ _ hrelease

end RulesSystemtest.Runner
