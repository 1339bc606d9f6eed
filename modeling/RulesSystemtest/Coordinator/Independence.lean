import RulesSystemtest.Coordinator.Isolation

/-! Who depends on whom. Different fixtures never touch each other's records or
leases, so every run projects onto each fixture. Clients of private fixtures share
the record under a fingerprint: as long as none of them replaces another one's, every
run projects onto each client, and the first replacement can change what the other
client is told. -/

namespace RulesSystemtest

open Library

variable {H : Host} {h : History} {w w' : World} {e : Event} {o : Obs} {ρ : LeaseId → LeaseId}

/-! ### Fixtures are independent -/

theorem separated_ofFingerprint (f : FixtureFingerprint) (t : Moment) : Separated (.ofFingerprint f) t where
  attach _ _ _ _ _ _ _ := rfl
  insert _ _ _ _ _ _ := rfl

/-- What concerns a fixture is, with everything else deleted and the lease ids renamed,
a run with the same answers, which ends with the same record and leases of it. -/
theorem fixtures_independent (hr : Runs H h w) (hf : FreshIds h) (f : FixtureFingerprint)
    (hρ : Function.Injective ρ) :
    ∃ h' u, Runs H h' u ∧ List.Forall₂ (Alike ρ) (kept ((Scope.ofFingerprint f).concerns H) h) h' ∧
      u.state.fixtures.lookup f = w.state.fixtures.lookup f ∧
      ∀ id', u.state.leases.lookup id' = some ⟨f⟩ ↔ ∃ id, id' = ρ id ∧ w.state.leases.lookup id = some ⟨f⟩ := by
  have hsep : Along (fun _ t => Separated (.ofFingerprint f) t) h :=
    Machine.Run.along hereditary_true (fun _ _ _ _ _ _ _ _ => separated_ofFingerprint f _) hr trivial
  obtain ⟨h', u, hr', hsh, hsame⟩ := hr.project hf hsep hρ
  have hs := hr.scoped hf hsep
  refine ⟨h', u, hr', hsame, hsh.state.fixtures.agrees fun _ _ => decide_eq_true rfl, fun id' => ?_⟩
  constructor
  · intro hid
    obtain ⟨id, rfl⟩ := hsh.state.range id' _ hid
    refine ⟨id, rfl, ?_⟩
    have hlease : u.state.leases.lookup (ρ id) = (w.state.leases.lookup id).filter _ := hsh.state.leases id
    exact (Option.filter_eq_some_iff.1 (hlease.symm.trans hid)).1
  · rintro ⟨id, rfl, hid⟩
    obtain ⟨r, hrec⟩ := (hr.leaseTable hf).backed id _ hid
    have hmine : (Scope.ofFingerprint f).hasLease H h id = true :=
      (hs.lease id f r hid hrec).trans (decide_eq_true rfl)
    rw [hsh.state.lease_agrees hmine, hid]

/-- One fixture is leased, attached to and released between the steps of another. -/
theorem fixtures_independent_sample :
    let run := sampleRun (sampleTake 0 "redis" "alice" "l0" "6379" ++ sampleTake 1 "mysql" "bob" "l1" "3306" ++
      [.status "l0", .releaseLease "l1", .releaseLease "l0"] ++ sampleCheck 2 "redis" "alice" "l2")
    ∃ h' u, Runs sampleHost h' u ∧
      List.Forall₂ (Alike id)
        (kept ((Scope.ofFingerprint (sampleFingerprint "redis")).concerns sampleHost) run.1) h' ∧
      u.state.fixtures.lookup (sampleFingerprint "redis") =
        run.2.state.fixtures.lookup (sampleFingerprint "redis") := by
  intro run
  obtain ⟨h', u, hr, hsame, hrec, -⟩ :=
    fixtures_independent (sampleRun_runs _) (show FreshIds run.1 by decide) (sampleFingerprint "redis")
      Function.injective_id
  exact ⟨h', u, hr, hsame, hrec⟩

/-! ### Clients of private fixtures -/

/-- A request whose description keeps its fixture private to the client. -/
def Event.isPrivate : Event → Bool
  | .takeLease _ req =>
    req.fixture.all fun desc => desc.useScope = none ∨ desc.useScope = some .clientRestricted
  | _ => true

/-- An insertion that replaces the record of another client. -/
def ReplacesOthers (t : Moment) : Prop :=
  ∃ x ∈ t.stores?, ∃ r ∈ t.pre.state.fixtures.lookup x.1.fp, r.creatingClientId ≠ x.1.req.clientId

instance (t : Moment) : Decidable (ReplacesOthers t) :=
  decidable_of_iff (t.stores?.any fun x =>
      (t.pre.state.fixtures.lookup x.1.fp).any fun r => r.creatingClientId ≠ x.1.req.clientId) <| by
    simp [ReplacesOthers, Option.any_eq_true]

theorem Asked.isPrivate {c : CallId} {a : Admitted} (hask : Asked H h c a)
    (hpriv : ∀ t ∈ h, t.event.isPrivate) : a.desc.useScope = none ∨ a.desc.useScope = some .clientRestricted := by
  obtain ⟨t, ht, hev, -⟩ := hask
  have hp := hpriv t ht
  rw [hev, Event.isPrivate, a.fixture_eq] at hp
  simpa using hp

/-- Where every fixture is private, clients attach to their own records only. -/
theorem separated_ofClient (hr : Runs H h w) (hpriv : ∀ t ∈ h, t.event.isPrivate) (client : String)
    (hrep : ¬ ReplacesOthers ⟨w, e, o, w'⟩) : Separated (.ofClient client) ⟨w, e, o, w'⟩ where
  attach c id a r _ _ hfind := by
    obtain ⟨hrec, hadmits, -⟩ := findReusable_eq_some.1 hfind
    obtain ⟨i, hi, -, hri⟩ := hr.provenance.stored a.fp r hrec
    have hcreator : r.creatingClientId = i.admitted.req.clientId := congrArg (·.creatingClientId) hri
    rw [hri] at hadmits
    have hsame : i.admitted.req.clientId = a.req.clientId := by
      rcases admitted_scope hadmits with hopen | ⟨-, hsame⟩
      · rcases (hr.allAsked.instances i hi).isPrivate hpriv with hnone | hclient
        · rw [hnone] at hopen
          cases hopen
        · rw [hclient] at hopen
          cases hopen
      · exact hsame
    simp [Scope.ofClient, Scope.mine, hcreator, hsame]
  insert a plugin result r hx hrec := by
    have hsame : r.creatingClientId = a.req.clientId := by
      by_contra hne
      exact hrep ⟨_, hx, r, hrec, hne⟩
    simp [Scope.ofClient, Scope.mine, hsame]

/-- While no insertion replaces the record of another client, what a client of private
fixtures does is, with the other clients deleted and the lease ids renamed, a run with
the same answers. -/
theorem clients_independent (hr : Runs H h w) (hf : FreshIds h) (hpriv : ∀ t ∈ h, t.event.isPrivate)
    (hrep : Along (fun _ t => ¬ ReplacesOthers t) h) (client : String) (hρ : Function.Injective ρ) :
    ∃ h' u, Runs H h' u ∧ List.Forall₂ (Alike ρ) (kept ((Scope.ofClient client).concerns H) h) h' := by
  have hhered : Hereditary fun h : History =>
      (∀ t ∈ h, t.event.isPrivate) ∧ Along (fun _ t => ¬ ReplacesOthers t) h :=
    fun _ _ h => ⟨fun t ht => h.1 t (List.mem_cons_of_mem _ ht), h.2.2⟩
  have hsep : Along (fun _ t => Separated (.ofClient client) t) h := by
    refine Machine.Run.along hhered ?_ hr ⟨hpriv, hrep⟩
    exact fun h w e o w' hr ha _ => separated_ofClient hr (hhered _ _ ha).1 client ha.2.1
  obtain ⟨h', u, hr', -, hsame⟩ := hr.project hf hsep hρ
  exact ⟨h', u, hr', hsame⟩

/-- A client keeps a fixture while another one provisions its own, asks for the same
recipe and gives up. -/
theorem clients_independent_sample :
    let run := sampleRun (sampleTake 0 "redis" "alice" "l0" "6379" ++ sampleTake 1 "mysql" "bob" "l1" "3306" ++
      sampleCheck 2 "redis" "bob" "l2" ++ [.spawn 2 "" (.commandFailed "fork failed"), .status "l0"])
    ∃ h' u, Runs sampleHost h' u ∧
      List.Forall₂ (Alike id) (kept ((Scope.ofClient "alice").concerns sampleHost) run.1) h' := by
  intro run
  exact clients_independent (sampleRun_runs _) (show FreshIds run.1 by decide) (by decide) (by decide) "alice"
    Function.injective_id

theorem instances_alike {h h' : History} (hsame : List.Forall₂ (Alike ρ) h h') :
    instances h' = instances h := by
  induction hsame with
  | nil => rfl
  | @cons t t' h h' halike _ ih =>
    have hobs : t'.obs.instance? = t.obs.instance? := by
      rw [halike.obs]
      cases t.obs <;> rfl
    simp only [instances, List.filterMap_cons, hobs]
    cases t.obs.instance? with
    | none => exact ih
    | some i => exact congrArg (i :: ·) ih

/-- After the second client's fixture replaced the first one's, the first client is
shown outputs that no instance of its own has. -/
theorem clients_not_independent : ¬ ∀ (H : Host) (h : History) (w : World), Runs H h w → FreshIds h →
    (∀ t ∈ h, t.event.isPrivate) →
    (∀ i ∈ instances h, ∀ j ∈ instances h, i.request = j.request → i.result = j.result) →
    ∀ client : String, ∃ ρ : LeaseId → LeaseId, Function.Injective ρ ∧ ∃ h' u, Runs H h' u ∧
      List.Forall₂ (Alike ρ) (kept ((Scope.ofClient client).concerns H) h) h' := by
  intro hall
  let run := sampleRun (sampleTake 0 "redis" "alice" "l0" "6379" ++ sampleTake 1 "redis" "bob" "l1" "6380" ++
    [.status "l0"])
  obtain ⟨ρ, -, h', u, hr, hsame⟩ :=
    hall sampleHost run.1 run.2 (sampleRun_runs _) (by decide) (by decide) (by decide) "alice"
  have hlast : (kept ((Scope.ofClient "alice").concerns sampleHost) run.1).head?.map (·.obs) =
      some (.reported "l0" (.ok ⟨2, sampleOutputs "6380", []⟩)) := by decide
  have hown : ∀ i ∈ instances (kept ((Scope.ofClient "alice").concerns sampleHost) run.1),
      i.result.outputs ≠ sampleOutputs "6380" := by decide
  generalize kept ((Scope.ofClient "alice").concerns sampleHost) run.1 = own at hsame hlast hown
  cases hsame with
  | nil => cases hlast
  | @cons t t' own past halike hsame =>
    cases hr with
    | @step _ w u e o hr hst =>
      have hst : Step sampleHost w e o u := step_cases hst
      obtain rfl : o = Obs.rename ρ t.obs := halike.obs
      have ht : t.obs = .reported "l0" (.ok ⟨2, sampleOutputs "6380", []⟩) := by simpa using hlast
      rw [ht] at hst
      generalize hreply : (Except.ok ⟨2, sampleOutputs "6380", []⟩ : Except Status StatusResponse) = reply at hst
      cases hst with
      | status =>
        rcases Runs.status_outputs hr hreply.symm with hempty | ⟨i, hi, hout⟩
        · exact absurd hempty (by decide)
        · rw [instances_alike hsame] at hi
          refine hown i ?_ hout.symm
          simpa [instances, ht, Obs.instance?] using hi

end RulesSystemtest
