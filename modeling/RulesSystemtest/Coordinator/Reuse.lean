import RulesSystemtest.Coordinator.Identity
import RulesSystemtest.Coordinator.Instances

/-! Soundness of reuse. Every call that got past validation asked for its fixture in
this run, and its fingerprint was computed from what was hashed then. So, as far as
the digest tells apart the strings hashed in a run, an instance found under a call's
fingerprint was created from the call's own recipe, and its policy admits the call. -/

namespace RulesSystemtest

open Library

variable {H : Host} {h : History} {w w' : World} {e : Event} {o : Obs}

/-! ### What a run hashes -/

/-- The strings that a step hashes: for a call's fingerprint, the plugin binary it
could read and the description it could then encode. -/
def Event.hashes (H : Host) (files : FileSystem) : Event → List Bytes
  | .takeLease _ req =>
    match req.fixture with
    | some desc =>
      match desc.plugin with
      | some (.binaryPath path) =>
        (files path).toOption.toList ++ (canonicalEncoding H files desc path).toOption.toList
      | _ => []
    | none => []
  | _ => []

def hashed (H : Host) (h : History) : List Bytes := h.flatMap fun t => t.event.hashes H t.pre.files

/-- The digest is injective on the strings hashed in a run. -/
def DigestInjective (H : Host) (h : History) : Prop :=
  ∀ x ∈ hashed H h, ∀ y ∈ hashed H h, H.sha256 x = H.sha256 y → x = y

instance (H : Host) (h : History) : Decidable (DigestInjective H h) := inferInstanceAs (Decidable (∀ _ ∈ _, _))

/-- The call entered the coordinator with this request and passed validation. -/
def Asked (H : Host) (h : History) (c : CallId) (a : Admitted) : Prop :=
  ∃ t ∈ h, t.event = .takeLease c a.req ∧ takeLeaseValidate H t.pre.files a.req = .ok a

theorem Asked.cons {c : CallId} {a : Admitted} (h₀ : Asked H h c a) (t : Moment) : Asked H (t :: h) c a := by
  obtain ⟨u, hu, hask⟩ := h₀
  exact ⟨u, List.mem_cons_of_mem _ hu, hask⟩

/-- A call that runs after a step ran before it, or entered with it. -/
theorem running_step (hst : Step H w e o w') {c : CallId} {a : Admitted} {p : Phase}
    (hc : w'.calls.lookup c = some (.running a p)) :
    (∃ p₀, w.calls.lookup c = some (.running a p₀)) ∨
      ∃ req, e = .takeLease c req ∧ takeLeaseValidate H w.files req = .ok a := by
  rcases hst.running_cases hc with he | ⟨-, hc₀⟩ | ⟨-, -, hreq⟩
  · obtain ⟨a₀, p₀, hc₀, hfin | ⟨q, hq⟩⟩ := hst.running he
    · rw [hfin] at hc
      cases hc
    · obtain ⟨rfl, -⟩ : a₀ = a ∧ q = p := by simpa [hq] using hc
      exact .inl ⟨p₀, hc₀⟩
  · exact .inl ⟨p, hc₀⟩
  · exact .inr hreq

/-- Whatever runs or was created was asked for in this run. -/
structure AllAsked (H : Host) (h : History) (w : World) : Prop where
  calls : ∀ c a p, w.calls.lookup c = some (.running a p) → Asked H h c a
  instances : ∀ i ∈ instances h, Asked H h i.call i.admitted

theorem allAsked_start (files : FileSystem) : AllAsked H [] (World.start files) where
  calls c a p hc := by simp [World.start] at hc
  instances i hi := by cases hi

theorem allAsked_step (ha : AllAsked H h w) (hst : Step H w e o w') : AllAsked H (⟨w, e, o, w'⟩ :: h) w' := by
  constructor
  · intro c a p hc
    rcases running_step hst hc with ⟨p₀, hc₀⟩ | ⟨req, rfl, hv⟩
    · exact (ha.calls c a p₀ hc₀).cons _
    · obtain ⟨rfl, -⟩ := takeLeaseValidate_eq_ok hv
      exact ⟨_, List.mem_cons_self, rfl, hv⟩
  · intro i hi
    cases ho : o.instance? with
    | none =>
      rw [instances_none ho] at hi
      exact (ha.instances i hi).cons _
    | some j =>
      rw [instances_some ho] at hi
      rcases List.mem_cons.1 hi with rfl | hi
      · cases hst with
        | create hc hr =>
          obtain rfl := Option.some.inj ho
          exact (ha.calls _ _ _ hc).cons _
        | _ => cases ho
      · exact (ha.instances i hi).cons _

theorem Runs.allAsked (hr : Runs H h w) : AllAsked H h w := by
  refine Machine.Run.invariant hereditary_true (I := AllAsked H) ?_ ?_ hr trivial
  · rintro _ ⟨files, rfl⟩
    exact allAsked_start files
  · intro h w e o w' _ _ ha hst
    exact allAsked_step ha (step_cases hst)

/-! ### From fingerprints back to recipes -/

theorem Asked.digests {c : CallId} {a : Admitted} (hask : Asked H h c a) : ∃ binary,
    binary ∈ hashed H h ∧ (a.desc.identity (hexEncode (H.sha256 binary))).encodeToVec ∈ hashed H h ∧
    a.fp = ⟨hexEncode (H.sha256 (a.desc.identity (hexEncode (H.sha256 binary))).encodeToVec)⟩ := by
  obtain ⟨t, ht, hev, hv⟩ := hask
  obtain ⟨-, hfp⟩ := takeLeaseValidate_eq_ok hv
  have hin : ∀ x ∈ t.event.hashes H t.pre.files, x ∈ hashed H h :=
    fun x hx => List.mem_flatMap.2 ⟨t, ht, hx⟩
  cases hf : t.pre.files a.binaryPath with
  | error err => simp [FixtureFingerprint.compute, canonicalEncoding, a.plugin_eq, hashPluginBinary, hf] at hfp
  | ok binary =>
    have henc := canonicalEncoding_eq_ok (H := H) a.plugin_eq hf
    rw [FixtureFingerprint.compute, henc, Except.ok.injEq] at hfp
    refine ⟨binary, hin _ ?_, hin _ ?_, hfp.symm⟩ <;>
      simp [hev, Event.hashes, a.fixture_eq, a.plugin_eq, hf, henc, Except.toOption]

/-- As far as the digest tells apart what was hashed, a fingerprint names one recipe. -/
theorem sameRecipe_of_fp {c₁ c₂ : CallId} {a₁ a₂ : Admitted} (hsha : DigestInjective H h)
    (h₁ : Asked H h c₁ a₁) (h₂ : Asked H h c₂ a₂) (hfp : a₁.fp = a₂.fp) : SameRecipe a₁.desc a₂.desc := by
  obtain ⟨b₁, -, henc₁, hfp₁⟩ := h₁.digests
  obtain ⟨b₂, -, henc₂, hfp₂⟩ := h₂.digests
  rw [hfp₁, hfp₂, FixtureFingerprint.mk.injEq] at hfp
  have henc := hsha _ henc₁ _ henc₂ (hexEncode_injective hfp)
  exact (identity_eq_iff.1 (FixtureDescription.encodeToVec_injective henc)).2

/-! ### Reuse is sound -/

def FixtureDescription.useScope (d : FixtureDescription) : Option UseScope := d.sharing.bind (·.useScope)

/-- The instance came from a `CreateFixture` of its call, as its terminal message says. -/
def Produced (h : History) (i : Instance) : Prop :=
  ∃ t ∈ h, t.obs = .created i ∧ ∃ fixtureId before progress rest,
    t.event = .createFixture i.call fixtureId (.ok (before ++ .ok progress :: rest)) ∧
    i.request = createRequest i.admitted fixtureId ∧
    (∀ x ∈ before, ∃ p : CreateProgress, x = .ok p ∧ ¬ p.terminal) ∧
    CreateProgressStatus.ofInt32 progress.status = .succeeded ∧ progress.result = some i.result

theorem Runs.produced (hr : Runs H h w) {i : Instance} (hi : i ∈ instances h) : Produced h i := by
  obtain ⟨t, ht, hobs⟩ := List.mem_filterMap.1 hi
  have hst : Step H t.pre t.event t.obs t.post := step_cases (Machine.Run.mem hr ht)
  have hcreated : t.obs = .created i := by
    cases ho : t.obs with
    | created j => simpa [ho, Obs.instance?] using hobs
    | _ => simp [ho, Obs.instance?] at hobs
  refine ⟨t, ht, hcreated, ?_⟩
  obtain ⟨pre, e, o, post⟩ := t
  simp only at hcreated hst
  subst hcreated
  cases hst with
  | create hc hr =>
    obtain ⟨stream, rfl, hstream⟩ := createFixture_eq_ok.1 hr
    obtain ⟨before, progress, rest, rfl, hbefore, hstatus, hres⟩ := drainCreateStream_eq_ok.1 hstream
    exact ⟨_, before, progress, rest, rfl, rfl, hbefore, hstatus, hres⟩

/-- What the policy of a stored record admits, in terms of its description. -/
theorem admitted_scope {i : Instance} {requester : String}
    (h : sharingAdmits (recordedSharing i.admitted.desc) i.admitted.req.clientId requester = true) :
    i.admitted.desc.useScope = some .unrestricted ∨
      ((i.admitted.desc.useScope = some .clientRestricted ∨ i.admitted.desc.useScope = none) ∧
        i.admitted.req.clientId = requester) := by
  unfold recordedSharing FixtureDescription.useScope at *
  cases hs : i.admitted.desc.sharing with
  | none =>
    rw [hs] at h
    exact .inr ⟨.inr rfl, by simpa [sharingAdmits] using h⟩
  | some sharing =>
    rw [hs] at h
    simp only [Option.getD_some, sharingAdmits] at h
    simp only [Option.bind_some]
    split at h
    · next hu => exact .inl hu
    · next hu => exact .inr ⟨.inl hu, by simpa using h⟩
    · next hu => exact .inr ⟨.inr hu, by simpa using h⟩
    · cases h

/-- Reuse is sound: a lease is granted only on an instance of the requested recipe that
the call created itself, or that its creator's policy shares with the call's client. -/
theorem reuse_sound (hr : Runs H h w) (hsha : DigestInjective H h)
    {newer older : History} {t : Moment} (hh : h = newer ++ t :: older)
    {id : LeaseId} {g : Grant} {resp : TakeLeaseResponse} (ht : t.obs = .granted id g resp) :
    Asked H older g.call g.admitted ∧ ∃ i ∈ instances older,
      Produced older i ∧ Asked H older i.call i.admitted ∧ i.result.outputs = resp.outputs ∧
      i.admitted.desc.implId = g.admitted.desc.implId ∧
      (∀ key : String, i.admitted.desc.inputs[key]? = g.admitted.desc.inputs[key]?) ∧
      i.admitted.desc.sharing = g.admitted.desc.sharing ∧
      (i.call ≠ g.call → i.admitted.desc.useScope = some .unrestricted ∨
        ((i.admitted.desc.useScope = some .clientRestricted ∨ i.admitted.desc.useScope = none) ∧
          i.admitted.req.clientId = g.admitted.req.clientId)) ∧
      (i.admitted.desc.useScope = some .singleUse → i.call = g.call) := by
  subst hh
  obtain ⟨hpast, hst⟩ := Machine.Run.before hr
  have hst : Step H t.pre t.event t.obs t.post := step_cases hst
  have hpast_hashed : ∀ x ∈ hashed H older, x ∈ hashed H (newer ++ t :: older) := by
    intro x hx
    simp only [hashed, List.flatMap_append, List.flatMap_cons, List.mem_append] at hx ⊢
    exact .inr (.inr hx)
  have hinj : DigestInjective H older :=
    fun x hx y hy => hsha x (hpast_hashed x hx) y (hpast_hashed y hy)
  obtain ⟨pre, e, o, post⟩ := t
  simp only at ht hst hpast
  subst ht
  have hasked := Runs.allAsked hpast
  have hp := Runs.provenance hpast
  cases hst with
  | @attach c a record _ hc hf =>
    obtain ⟨hrec, hadmits, -⟩ := findReusable_eq_some.1 hf
    obtain ⟨i, hi, hfp, hri⟩ := hp.stored a.fp record hrec
    rw [hri] at hadmits
    have hrecipe := sameRecipe_of_fp hinj (hasked.instances i hi) (hasked.calls c a _ hc) hfp
    have hscope := admitted_scope hadmits
    refine ⟨hasked.calls c a _ hc, i, hi, Runs.produced hpast hi, hasked.instances i hi, ?_, hrecipe.implId,
      hrecipe.inputs, hrecipe.sharing, fun _ => hscope, fun hsingle => ?_⟩
    · change _ = record.outputs
      rw [hri]
      rfl
    · simp [hsingle] at hscope
  | @insert c a plugin result _ hc =>
    obtain ⟨i, hi, hcall, rfl, -, rfl⟩ := hp.born c a plugin.child result (work_call hc)
    exact ⟨hasked.calls c _ _ hc, i, hi, Runs.produced hpast hi, hasked.instances i hi, rfl, rfl, fun _ => rfl,
      rfl, fun hne => absurd hcall hne, fun _ => hcall⟩

/-- A client attaches to the fixture it left. -/
theorem reuse_sound_sample :
    let run := sampleRun (sampleTake 0 "redis" "alice" "l0" "6379" ++ sampleTake 1 "mysql" "bob" "l1" "3306" ++
      .releaseLease "l0" :: sampleCheck 2 "redis" "alice" "l2")
    ∃ i ∈ instances run.1.tail, i.result.outputs = sampleOutputs "6379" ∧ i.admitted.desc.implId = "redis" := by
  intro run
  have hh : run.1 = [] ++ run.1.head (by decide) :: run.1.tail := (List.cons_head_tail _).symm
  have hgranted : (run.1.head (by decide)).obs = .granted ⟨"l2"⟩
      ⟨2, sampleAdmitted "redis" "alice", ⟨0⟩, sampleOutputs "6379"⟩
      ⟨2, "l2", sampleOutputs "6379", ["connecting to existing fixture"]⟩ := by decide
  obtain ⟨-, i, hi, -, -, hout, himpl, -⟩ := reuse_sound (sampleRun_runs _) (by decide) hh hgranted
  exact ⟨i, hi, hout, himpl⟩

end RulesSystemtest
