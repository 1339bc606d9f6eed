import RulesSystemtest.Library.Overlay
import RulesSystemtest.Runner.Unmarshal
import Std.Data.String.ToInt

/-! What `portEnvFromOutputs` computes: the overlay of the variables of each port entry,
in the order in which outputs and entries are visited. It fails when a ports blob is
malformed, and depends on the order in which the outputs map is ranged over exactly when
two outputs publish different endpoints under one sanitized port name. -/

namespace RulesSystemtest.Runner

open Library

variable {decode : Bytes → Except String PortsSchema} {fixturePrefix : String}
  {outputs : List (String × Value)} {output : String × Value} {env : Env}

/-! ### Names and values of variables -/

theorem hostVar_eq_iff {p n q m : String} : hostVar p n = hostVar q m ↔ p ++ "_" ++ n = q ++ "_" ++ m :=
  String.append_left_inj "_HOST"

theorem portVar_eq_iff {p n q m : String} : portVar p n = portVar q m ↔ p ++ "_" ++ n = q ++ "_" ++ m :=
  String.append_left_inj "_PORT"

theorem hostVar_ne_portVar (p n q m : String) : hostVar p n ≠ portVar q m := by
  intro h
  have hlist := congrArg String.toList h
  simp only [hostVar, portVar, String.toList_append] at hlist
  have hsuffix := (List.append_inj' hlist (by decide)).2
  exact absurd hsuffix (by decide)

theorem varName_inj {p n m : String} : p ++ "_" ++ n = p ++ "_" ++ m ↔ n = m := String.append_right_inj _

theorem itoa_inj {i j : Int64} : itoa i = itoa j ↔ i = j := by
  rw [itoa, itoa, Int.repr_inj, Int64.toInt_inj]

/-! ### One output -/

/-- The port entries of an output; one that is no ports blob has none. -/
def portsOf (decode : Bytes → Except String PortsSchema) (v : Value) : Except String (List PortEntry) :=
  match getSchemaBlob v with
  | some blob => if blob.schemaId = portsSchemaID then (decode blob.contents).map (·.ports) else .ok []
  | none => .ok []

/-- The output is no ports blob, or one that decodes. -/
def WellFormed (decode : Bytes → Except String PortsSchema) (v : Value) : Prop :=
  ∃ ports, portsOf decode v = .ok ports

def entries (decode : Bytes → Except String PortsSchema) (v : Value) : List PortEntry :=
  (portsOf decode v).toOption.getD []

/-- The variables that one entry sets. -/
def entryVars (fixturePrefix : String) (p : PortEntry) (k : String) : Option String :=
  if p.tunnel then none
  else if k = portVar fixturePrefix (envFragment p.name) then some (itoa p.port)
  else if k = hostVar fixturePrefix (envFragment p.name) then some p.host
  else none

instance (decode : Bytes → Except String PortsSchema) (v : Value) : Decidable (WellFormed decode v) :=
  decidable_of_iff ((portsOf decode v).isOk = true) <| by
    unfold WellFormed
    cases portsOf decode v <;> simp [Except.isOk, Except.toBool]

theorem lookup_setPortEnv (p : PortEntry) (k : String) :
    (setPortEnv fixturePrefix env p).lookup k = (entryVars fixturePrefix p k).or (env.lookup k) := by
  unfold setPortEnv entryVars
  split
  · rfl
  · rw [HashMap.lookup_insert, HashMap.lookup_insert]
    split
    · rfl
    · split <;> rfl

theorem lookup_foldl_setPortEnv (ps : List PortEntry) (env : Env) (k : String) :
    (ps.foldl (setPortEnv fixturePrefix) env).lookup k =
      (overlay (entryVars fixturePrefix) ps k).or (env.lookup k) :=
  overlay_foldl (fun env k => Finmap.lookup k env) (fun _ p k => lookup_setPortEnv p k) env ps k

theorem setOutputEnv_ok (fixtureName : String) {ports : List PortEntry} (h : portsOf decode output.2 = .ok ports) :
    setOutputEnv decode fixtureName env output = .ok (ports.foldl (setPortEnv (envFragment fixtureName)) env) := by
  unfold portsOf at h
  unfold setOutputEnv
  cases hb : getSchemaBlob output.2 with
  | none =>
    simp only [hb, Except.ok.injEq] at h
    subst h
    rfl
  | some blob =>
    simp only [hb] at h
    by_cases hid : blob.schemaId = portsSchemaID
    · cases hd : decode blob.contents with
      | error e => simp [hid, hd, Except.map] at h
      | ok parsed =>
        simp only [hid, hd, Except.map, if_true, Except.ok.injEq] at h
        simp [hid, hd, h]
    · simp only [hid, if_false, Except.ok.injEq] at h
      subst h
      simp [hid]

theorem setOutputEnv_error (fixtureName : String) (env : Env) (h : ¬ WellFormed decode output.2) :
    ∃ e, setOutputEnv decode fixtureName env output = .error e := by
  unfold WellFormed portsOf at h
  unfold setOutputEnv
  cases hb : getSchemaBlob output.2 with
  | none => simp [hb] at h
  | some blob =>
    by_cases hid : blob.schemaId = portsSchemaID
    · cases hd : decode blob.contents with
      | error e => simp [hid, hd]
      | ok parsed => simp [hb, hid, hd, Except.map] at h
    · simp [hb, hid] at h

/-! ### All outputs -/

theorem foldlM_setOutputEnv (fixtureName : String) (hwell : ∀ o ∈ outputs, WellFormed decode o.2) (env : Env) :
    ∃ env', outputs.foldlM (setOutputEnv decode fixtureName) env = .ok env' ∧ ∀ k, env'.lookup k =
      (overlay (entryVars (envFragment fixtureName)) (outputs.flatMap fun o => entries decode o.2) k).or
        (env.lookup k) := by
  induction outputs generalizing env with
  | nil => exact ⟨env, rfl, fun k => rfl⟩
  | cons o outputs ih =>
    obtain ⟨ports, hports⟩ := hwell o List.mem_cons_self
    obtain ⟨env', hfold, hlookup⟩ := ih (fun o' ho' => hwell o' (List.mem_cons_of_mem _ ho'))
      (ports.foldl (setPortEnv (envFragment fixtureName)) env)
    refine ⟨env', ?_, fun k => ?_⟩
    · rw [List.foldlM_cons, setOutputEnv_ok fixtureName hports]
      exact hfold
    · have hentries : entries decode o.2 = ports := by simp [entries, hports, Except.toOption]
      rw [hlookup, lookup_foldl_setPortEnv, List.flatMap_cons, overlay_append, hentries, Option.or_assoc]

/-- Without malformed blobs, the result is the overlay of all entries. -/
theorem portEnvFromOutputs_ok (fixtureName : String) (hwell : ∀ o ∈ outputs, WellFormed decode o.2) :
    ∃ env, portEnvFromOutputs decode fixtureName outputs = .ok env ∧ ∀ k, env.lookup k =
      overlay (entryVars (envFragment fixtureName)) (outputs.flatMap fun o => entries decode o.2) k := by
  obtain ⟨env, hfold, hlookup⟩ := foldlM_setOutputEnv fixtureName hwell ∅
  exact ⟨env, hfold, fun k => by simp [hlookup]⟩

theorem portEnvFromOutputs_toOption (fixtureName : String) (hwell : ∀ o ∈ outputs, WellFormed decode o.2) :
    ∃ env : Env, (portEnvFromOutputs decode fixtureName outputs).toOption = some env ∧ ∀ k, env.lookup k =
      overlay (fun o => overlay (entryVars (envFragment fixtureName)) (entries decode o.2)) outputs k := by
  obtain ⟨env, henv, hlookup⟩ := portEnvFromOutputs_ok fixtureName hwell
  exact ⟨env, by rw [henv]; rfl, fun k => by rw [hlookup, overlay_flatMap]⟩

/-- A malformed blob fails the whole lease, wherever it is. -/
theorem portEnvFromOutputs_error (fixtureName : String) (hbad : ∃ o ∈ outputs, ¬ WellFormed decode o.2) :
    ∃ e, portEnvFromOutputs decode fixtureName outputs = .error e := by
  unfold portEnvFromOutputs
  generalize (∅ : Env) = env
  induction outputs generalizing env with
  | nil => simp at hbad
  | cons o outputs ih =>
    rw [List.foldlM_cons]
    by_cases ho : WellFormed decode o.2
    · obtain ⟨ports, hports⟩ := ho
      rw [setOutputEnv_ok fixtureName hports]
      refine ih ?_ _
      obtain ⟨o', ho', hbad'⟩ := hbad
      rcases List.mem_cons.1 ho' with rfl | ho'
      · exact absurd ⟨ports, hports⟩ hbad'
      · exact ⟨o', ho', hbad'⟩
    · obtain ⟨e, he⟩ := setOutputEnv_error fixtureName env ho
      exact ⟨e, by rw [he]; rfl⟩

/-! ### Order of the outputs -/

/-- What an entry that is not tunneled publishes under a sanitized name. -/
def endpoint (p : PortEntry) (name : String) : Option (String × Int64) :=
  if p.tunnel = false ∧ envFragment p.name = name then some (p.host, p.port) else none

/-- The host and port that one output publishes under a sanitized name. -/
def published (decode : Bytes → Except String PortsSchema) (v : Value) : String → Option (String × Int64) :=
  overlay endpoint (entries decode v)

theorem entryVars_host (p : PortEntry) (name : String) :
    entryVars fixturePrefix p (hostVar fixturePrefix name) = (endpoint p name).map (·.1) := by
  have hsame : hostVar fixturePrefix name = hostVar fixturePrefix (envFragment p.name) ↔ envFragment p.name = name := by
    rw [hostVar_eq_iff, varName_inj, eq_comm]
  have hother : ∀ m, hostVar fixturePrefix name ≠ portVar fixturePrefix m := fun m => hostVar_ne_portVar _ _ _ m
  by_cases hname : envFragment p.name = name <;> cases ht : p.tunnel <;>
    simp [entryVars, endpoint, ht, hsame, hother, hname]

theorem entryVars_port (p : PortEntry) (name : String) :
    entryVars fixturePrefix p (portVar fixturePrefix name) = (endpoint p name).map (itoa ·.2) := by
  have hsame : portVar fixturePrefix name = portVar fixturePrefix (envFragment p.name) ↔ envFragment p.name = name := by
    rw [portVar_eq_iff, varName_inj, eq_comm]
  have hother : ∀ m, portVar fixturePrefix name ≠ hostVar fixturePrefix m :=
    fun m => (hostVar_ne_portVar _ m _ _).symm
  by_cases hname : envFragment p.name = name <;> cases ht : p.tunnel <;>
    simp [entryVars, endpoint, ht, hsame, hother, hname]

theorem overlay_host (ps : List PortEntry) (name : String) :
    overlay (entryVars fixturePrefix) ps (hostVar fixturePrefix name) = (overlay endpoint ps name).map (·.1) := by
  induction ps with
  | nil => rfl
  | cons p ps ih => rw [overlay, ih, entryVars_host, overlay, Option.map_or]

theorem overlay_port (ps : List PortEntry) (name : String) :
    overlay (entryVars fixturePrefix) ps (portVar fixturePrefix name) =
      (overlay endpoint ps name).map (itoa ·.2) := by
  induction ps with
  | nil => rfl
  | cons p ps ih => rw [overlay, ih, entryVars_port, overlay, Option.map_or]

/-- Entries set no other variables. -/
theorem entryVars_eq_some {p : PortEntry} {k x : String} (h : entryVars fixturePrefix p k = some x) :
    p.tunnel = false ∧ (k = hostVar fixturePrefix (envFragment p.name) ∧ x = p.host ∨
      k = portVar fixturePrefix (envFragment p.name) ∧ x = itoa p.port) := by
  unfold entryVars at h
  split at h
  · cases h
  · next ht =>
    refine ⟨by simpa using ht, ?_⟩
    split at h
    · next hk => exact .inr ⟨hk, (Option.some.inj h).symm⟩
    · split at h
      · next hk => exact .inl ⟨hk, (Option.some.inj h).symm⟩
      · cases h

/-- Two outputs agree on all variables when they agree on what they publish. -/
theorem agree_entryVars_iff {v v' : Value} :
    Agree (fun v => overlay (entryVars fixturePrefix) (entries decode v)) v v' ↔ Agree (published decode) v v' := by
  constructor
  · intro h name x x' hx hx'
    have hhost := h (hostVar fixturePrefix name) x.1 x'.1
    have hport := h (portVar fixturePrefix name) (itoa x.2) (itoa x'.2)
    simp only [overlay_host] at hhost
    simp only [overlay_port, itoa_inj] at hport
    unfold published at hx hx'
    rw [hx, hx'] at hhost hport
    exact Prod.ext (hhost rfl rfl) (hport rfl rfl)
  · intro h k u u' hu hu'
    simp only at hu hu'
    obtain ⟨p, -, hp⟩ := exists_of_overlay hu
    obtain ⟨-, ⟨rfl, -⟩ | ⟨rfl, -⟩⟩ := entryVars_eq_some hp
    · rw [overlay_host] at hu hu'
      obtain ⟨x, hx, rfl⟩ := Option.map_eq_some_iff.1 hu
      obtain ⟨x', hx', rfl⟩ := Option.map_eq_some_iff.1 hu'
      rw [h _ x x' hx hx']
    · rw [overlay_port] at hu hu'
      obtain ⟨x, hx, rfl⟩ := Option.map_eq_some_iff.1 hu
      obtain ⟨x', hx', rfl⟩ := Option.map_eq_some_iff.1 hu'
      rw [h _ x x' hx hx']

/-- In a map, distinct entries have distinct keys. -/
theorem pairwise_outputs_iff {outputs : BTreeMap Value} {R : Value → Value → Prop} (hR : ∀ v v', R v v' → R v' v) :
    outputs.toList.Pairwise (fun o o' => R o.2 o'.2) ↔
      ∀ o ∈ outputs.toList, ∀ o' ∈ outputs.toList, o.1 ≠ o'.1 → R o.2 o'.2 := by
  have hkeys : outputs.toList.Pairwise fun o o' => o.1 ≠ o'.1 := by
    refine Std.ExtTreeMap.distinct_keys_toList.imp fun {o o'} hne heq => hne ?_
    rw [heq]
    exact Std.ReflCmp.compare_self
  have hsymm : Std.Symm fun o o' : String × Value => R o.2 o'.2 := ⟨fun o o' => hR o.2 o'.2⟩
  constructor
  · intro h o ho o' ho' hne
    exact h.forall ho ho' fun heq => hne (by rw [heq])
  · intro h
    exact hkeys.imp_of_mem fun ho ho' hne => h _ ho _ ho' hne

/-- The variables injected for a lease do not depend on the order in which its outputs
are visited, exactly when some ports blob of it is malformed or no two of its outputs
publish different endpoints under one sanitized name. -/
theorem injected_order_independent_iff (decode : Bytes → Except String PortsSchema) (fixtureName : String)
    (outputs : BTreeMap Value) :
    (∀ l l', l.Perm outputs.toList → l'.Perm outputs.toList →
      (portEnvFromOutputs decode fixtureName l).toOption = (portEnvFromOutputs decode fixtureName l').toOption) ↔
    (∃ o ∈ outputs.toList, ¬ WellFormed decode o.2) ∨
      ∀ o ∈ outputs.toList, ∀ o' ∈ outputs.toList, o.1 ≠ o'.1 → Agree (published decode) o.2 o'.2 := by
  by_cases hwell : ∀ o ∈ outputs.toList, WellFormed decode o.2
  · have hgood : ¬ ∃ o ∈ outputs.toList, ¬ WellFormed decode o.2 := by simpa using hwell
    have hany : ∀ l : List (String × Value), l.Perm outputs.toList → ∀ o ∈ l, WellFormed decode o.2 :=
      fun l hl o ho => hwell o (hl.subset ho)
    rw [or_iff_right hgood, ← pairwise_outputs_iff (R := Agree (published decode)) fun _ _ => Agree.symm]
    have hagree : outputs.toList.Pairwise (fun o o' => Agree (published decode) o.2 o'.2) ↔ outputs.toList.Pairwise
        (Agree fun o => overlay (entryVars (envFragment fixtureName)) (entries decode o.2)) :=
      List.Pairwise.iff fun _ _ => agree_entryVars_iff.symm
    rw [hagree, ← overlay_perm_iff]
    refine forall₄_congr fun l l' hl hl' => ?_
    obtain ⟨env, henv, hlookup⟩ := portEnvFromOutputs_toOption fixtureName (hany l hl)
    obtain ⟨env', henv', hlookup'⟩ := portEnvFromOutputs_toOption fixtureName (hany l' hl')
    rw [henv, henv', Option.some.injEq]
    simp only [← hlookup, ← hlookup']
    constructor
    · rintro rfl k
      rfl
    · exact Finmap.ext_lookup
  · have hbad : ∃ o ∈ outputs.toList, ¬ WellFormed decode o.2 := by simpa using hwell
    refine iff_of_true (fun l l' hl hl' => ?_) (.inl hbad)
    obtain ⟨o, ho, hbad⟩ := hbad
    obtain ⟨e, he⟩ := portEnvFromOutputs_error fixtureName ⟨o, hl.symm.subset ho, hbad⟩
    obtain ⟨e', he'⟩ := portEnvFromOutputs_error fixtureName ⟨o, hl'.symm.subset ho, hbad⟩
    rw [he, he']
    rfl

/-- A ports output as a plugin may write it. -/
def sampleOutput (contents : String) : Value := ⟨some (.schemaBlob ⟨portsSchemaID, utf8 contents⟩)⟩

/-- Two outputs of one fixture publish a port under the same name. -/
theorem injected_order_dependent : ¬ ∀ (fixtureName : String) (outputs : BTreeMap Value) (l l' : List (String × Value)),
    l.Perm outputs.toList → l'.Perm outputs.toList →
    (portEnvFromOutputs unmarshal fixtureName l).toOption = (portEnvFromOutputs unmarshal fixtureName l').toOption := by
  intro hall
  let v := sampleOutput "\x7b\"ports\":[\x7b\"name\":\"main\",\"host\":\"127.0.0.1\",\"port\":6379\x7d]\x7d"
  let v' := sampleOutput "\x7b\"ports\":[\x7b\"name\":\"main\",\"host\":\"127.0.0.1\",\"port\":6380\x7d]\x7d"
  let outputs : BTreeMap Value := ((∅ : BTreeMap Value).insert "blue" v).insert "green" v'
  have hlist : outputs.toList = [("blue", v), ("green", v')] := by decide
  have hsame := hall "redis" outputs [("blue", v), ("green", v')] [("green", v'), ("blue", v)]
    (by rw [hlist]) (by rw [hlist]; exact List.Perm.swap _ _ _)
  revert hsame
  decide

end RulesSystemtest.Runner
