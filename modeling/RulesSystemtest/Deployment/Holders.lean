import RulesSystemtest.Coordinator.Replacement
import RulesSystemtest.Deployment.Accounting

/-! What a runner can rely on while it holds a lease, and how many runners can hold one on
the same instance. -/

namespace RulesSystemtest.Deployment

open Library Runner

variable {H : Host} {D D' : State} {e : Event} {o : Obs} {h : History} {r : RunnerId} {m : Member} {l : ActiveLease}

/-! ### A lease that is held -/

/-- The lease is one that the coordinator granted to the runner's own request, on this
instance, and still knows. -/
structure InForce (H : Host) (h : History) (D : State) (r : RunnerId) (m : Member) (l : ActiveLease) (i : Instance) :
    Prop where
  created : i ∈ instances (served h)
  granted : ∃ fx g, m.job.setup.fixtures[l.stop]? = some fx ∧ Outstanding (served h) ⟨l.id⟩ g ∧
    g.admitted.req = takeLeaseRequest m.job fx ∧ i.Backs g
  outputs : i.result.outputs = l.outputs
  alone : ∀ p, D.owns p = some ⟨l.id⟩ → p = .lease r l.stop
  kept : RulesSystemtest.step H D.coordinator (.keepalive l.id) = some (.kept l.id (.ok ()), D.coordinator)

theorem Runs.inForce (hr : Runs H h D) (hf : FreshIds (served h)) (hm : D.runners.lookup r = some m)
    (hl : l ∈ m.locals.leases) : ∃ i, InForce H h D r m l i := by
  obtain ⟨fx, hfx, g, hg, hreq, hout⟩ := (hr.requested hf).held r m hm l hl
  obtain ⟨i, hi, hb⟩ := hr.coordinator.lent.backed _ g hg
  have howns : D.owns (.lease r l.stop) = some ⟨l.id⟩ := by
    rw [owns_lease hm]
    exact leaseFor_eq_some (hr.sound hm).nodup hl
  refine ⟨i, hi, ⟨fx, g, hfx, hg, hreq, hb⟩, hb.outputs.trans hout, ?_, ?_⟩
  · exact fun p hp => (hr.placed hf).exclusive _ _ _ hp howns
  · rw [RulesSystemtest.step, keepalive_known ((hr.coordinator.leaseTable hf).lookup hg)]

/-- While the test runs, no lease is missing. -/
theorem covered_of_testing {J : Job} {L : Local} (hL : L.Sound J) (hs : L.stage = .testing) {n : ℕ}
    (hn : n < J.setup.fixtures.length) : ∃ l ∈ L.leases, l.stop = n := by
  have hplan := hL.planned (by rw [hs]; rfl)
  rw [hs] at hplan
  have hall : J.setup.fixtures.length ≤ L.leases.length := List.drop_eq_nil_iff.1 hplan
  have hmem : n ∈ L.leases.map (·.stop) := by
    rw [hL.numbered (by rw [hs]; rfl), List.mem_range]
    omega
  exact List.mem_map.1 hmem

/-- While its test runs, a runner holds a lease for each of its fixtures, and every lease
that it holds is in force. -/
theorem test_runs_under_leases (hr : Runs H h D) (hf : FreshIds (served h)) (hm : D.runners.lookup r = some m) :
    (m.locals.stage = .testing → ∀ n < m.job.setup.fixtures.length, ∃ l ∈ m.locals.leases, l.stop = n) ∧
    ∀ l ∈ m.locals.leases, ∃ i, InForce H h D r m l i :=
  ⟨fun hs _ hn => covered_of_testing (hr.sound hm) hs hn, fun _ hl => hr.inForce hf hm hl⟩

set_option maxRecDepth 4000 in
/-- Two tests run at once on one instance, each under a lease of its own. -/
theorem test_runs_under_leases_sample :
    let run := sampleRun sampleSharing
    ∃ m m' l l' i, run.2.runners.lookup 0 = some m ∧ run.2.runners.lookup 1 = some m' ∧
      l ∈ m.locals.leases ∧ l.stop = 0 ∧ InForce sampleHost run.1 run.2 0 m l i ∧
      l' ∈ m'.locals.leases ∧ l'.stop = 0 ∧ InForce sampleHost run.1 run.2 1 m' l' i := by
  intro run
  have hr : Runs sampleHost run.1 run.2 := sampleRun_runs _
  have hf : FreshIds (served run.1) := by decide
  obtain ⟨m, hm, hs, hn⟩ : ∃ m, run.2.runners.lookup 0 = some m ∧ m.locals.stage = .testing ∧
      0 < m.job.setup.fixtures.length := ⟨_, rfl, rfl, Nat.one_pos⟩
  obtain ⟨m', hm', hs', hn'⟩ : ∃ m, run.2.runners.lookup 1 = some m ∧ m.locals.stage = .testing ∧
      0 < m.job.setup.fixtures.length := ⟨_, rfl, rfl, Nat.one_pos⟩
  obtain ⟨covered, force⟩ := test_runs_under_leases hr hf hm
  obtain ⟨covered', force'⟩ := test_runs_under_leases hr hf hm'
  obtain ⟨l, hl, hstop⟩ := covered hs 0 hn
  obtain ⟨l', hl', hstop'⟩ := covered' hs' 0 hn'
  obtain ⟨i, hi⟩ := force l hl
  obtain ⟨i', hi'⟩ := force' l' hl'
  -- there is one instance only
  have hone : ∀ j ∈ instances (served run.1), ∀ j' ∈ instances (served run.1), j = j' := by decide
  obtain rfl := hone i hi.created i' hi'.created
  exact ⟨m, m', l, l', i, hm, hm', hl, hstop, hi, hl', hstop', hi'⟩

/-- While no insertion replaces the record that a lease counts on, the lease is in force
until its runner releases it, whatever else happens: its process lives, and `status` answers
with its outputs. -/
theorem lease_undisturbed (hr : Runs H h D) (hf : FreshIds (served h)) (hm : D.runners.lookup r = some m)
    (hl : l ∈ m.locals.leases) (hs : Along (fun u t => ¬ Displaces ⟨l.id⟩ u t) (served h)) :
    ∃ i, InForce H h D r m l i ∧ (∃ p, D.coordinator.processes.lookup i.child = some p ∧ p.killed = false) ∧
      RulesSystemtest.step H D.coordinator (.status l.id) =
        some (.reported l.id (.ok ⟨succeeded, l.outputs, []⟩), D.coordinator) := by
  obtain ⟨i, hi⟩ := hr.inForce hf hm hl
  obtain ⟨fx, g, -, hg, -, hb⟩ := hi.granted
  have howns := hr.coordinator.owns_of_undisplaced hs hg
  refine ⟨i, hi, ?_, ?_⟩
  · rw [hb.child]
    exact hr.coordinator.guarded.alive _ _ howns
  · rw [← hi.outputs, hb.outputs]
    exact status_of_owns hr.coordinator hf hg howns

set_option maxRecDepth 4000 in
/-- Of two tests on one instance the first is done and gave its lease back. -/
theorem lease_undisturbed_sample :
    let run := sampleRun (sampleSharing ++ sampleEnd 0 2)
    ∃ m l i p, run.2.runners.lookup 1 = some m ∧ l ∈ m.locals.leases ∧ InForce sampleHost run.1 run.2 1 m l i ∧
      run.2.coordinator.processes.lookup i.child = some p ∧ p.killed = false ∧
      run.2.coordinator.state.leases.lookup ⟨"l0"⟩ = none := by
  intro run
  obtain ⟨m, l, hm, hl, hid⟩ : ∃ m l, run.2.runners.lookup 1 = some m ∧ l ∈ m.locals.leases ∧ l.id = "l1" :=
    ⟨_, _, rfl, List.mem_cons_self .., rfl⟩
  have hkept : Along (fun u t => ¬ Displaces ⟨"l1"⟩ u t) (served run.1) := by decide
  obtain ⟨i, hi, ⟨p, hp, halive⟩, -⟩ := lease_undisturbed (sampleRun_runs _) (show FreshIds (served run.1) by decide)
    hm hl (hid ▸ hkept)
  exact ⟨m, l, i, p, hm, hl, hi, hp, halive, by decide⟩

/-! ### Sharing an instance -/

/-- The runner holds a lease on the instance. -/
def Uses (h : History) (D : State) (r : RunnerId) (i : Instance) : Prop :=
  ∃ m l g, D.runners.lookup r = some m ∧ l ∈ m.locals.leases ∧ Outstanding (served h) ⟨l.id⟩ g ∧ g.child = i.child

theorem Uses.place (hr : Runs H h D) {i : Instance} (hu : Uses h D r i) :
    ∃ id n, D.owns (.lease r n) = some id ∧ ∃ g, Outstanding (served h) id g ∧ g.child = i.child := by
  obtain ⟨m, l, g, hm, hl, hg, hchild⟩ := hu
  refine ⟨⟨l.id⟩, l.stop, ?_, g, hg, hchild⟩
  rw [owns_lease hm]
  exact leaseFor_eq_some (hr.sound hm).nodup hl

theorem card_users_le (hr : Runs H h D) (hf : FreshIds (served h)) {i : Instance} {rs : Finset RunnerId}
    (hrs : ∀ r ∈ rs, Uses h D r i) : rs.card ≤ outstandingOn (served h) i.child := by
  have : Nonempty LeaseId := ⟨⟨""⟩⟩
  choose! id n howns hout using fun r hr' => (hrs r hr').place hr
  -- two runners never hold the same lease
  have hid : Set.InjOn id rs := by
    intro r hr₁ r' hr₂ heq
    have hplace := (hr.placed hf).exclusive _ _ _ (howns r hr₁) (heq ▸ howns r' hr₂)
    exact (Place.lease.inj hplace).1
  refine Ledger.card_le_load hid fun r hr' => ?_
  obtain ⟨g, hg, hchild⟩ := hout r hr'
  exact ⟨g, hg, by simpa using hchild⟩

theorem slotsKept_of_run {H : Host} {h : RulesSystemtest.History} {w : RulesSystemtest.World}
    (hr : RulesSystemtest.Runs H h w) (hf : FreshIds h) (hs : Along (fun h t => ¬ StaleRelease h t) h) :
    SlotsKept h w := by
  refine Machine.Run.invariant (freshIds_hereditary.and (hereditary_along fun h t => ¬ StaleRelease h t))
    ?_ ?_ hr ⟨hf, hs⟩
  · rintro _ ⟨files, rfl⟩
    exact slotsKept_start files
  · intro h w e o w' hr ha hk hst
    exact slotsKept_step hr ha.1 hk (RulesSystemtest.step_cases hst) ha.2.1

/-- In runs without stale releases no more runners hold a lease on an instance than its
description admits at a time. -/
theorem users_within_slots (hr : Runs H h D) (hf : FreshIds (served h))
    (hs : Along (fun h t => ¬ StaleRelease h t) (served h)) {i : Instance} (hi : i ∈ instances (served h))
    (rs : Finset RunnerId) (hrs : ∀ r ∈ rs, Uses h D r i) :
    (rs.card : ℤ) ≤ max 1 (recordedSharing i.admitted.desc).maximumConcurrentConnections.toInt := by
  have hcard : (rs.card : ℤ) ≤ outstandingOn (served h) i.child := by exact_mod_cast card_users_le hr hf hrs
  exact hcard.trans ((slotsKept_of_run hr.coordinator hf hs).within i hi)

set_option maxRecDepth 4000 in
/-- Two runners hold leases on the one instance of a fixture that admits two. -/
theorem users_within_slots_sample :
    let run := sampleRun sampleSharing
    ∃ i, Uses run.1 run.2 0 i ∧ Uses run.1 run.2 1 i ∧ ((({0, 1} : Finset RunnerId).card : ℕ) : ℤ) ≤
      max 1 (recordedSharing i.admitted.desc).maximumConcurrentConnections.toInt := by
  intro run
  have hr : Runs sampleHost run.1 run.2 := sampleRun_runs _
  have hf : FreshIds (served run.1) := by decide
  obtain ⟨i, hi, hchild⟩ : ∃ i ∈ instances (served run.1), i.child = ⟨0⟩ := by decide
  have hheld : ∀ x ∈ Ledger.held (ledger (served run.1)), x.2.child = ⟨0⟩ := by decide
  have huses : ∀ r, (run.2.runners.lookup r).map (·.locals.leases.length) = some 1 → Uses run.1 run.2 r i := by
    intro r hlength
    obtain ⟨m, hm, hlength⟩ := Option.map_eq_some_iff.1 hlength
    obtain ⟨l, hl⟩ := List.exists_mem_of_length_pos (show 0 < m.locals.leases.length by omega)
    obtain ⟨j, hj⟩ := hr.inForce hf hm hl
    obtain ⟨fx, g, -, hg, -⟩ := hj.granted
    exact ⟨m, l, g, hm, hl, hg, (hheld _ hg).trans hchild.symm⟩
  have huses₀ := huses 0 (by decide)
  have huses₁ := huses 1 (by decide)
  refine ⟨i, huses₀, huses₁, users_within_slots hr hf (by decide) hi {0, 1} fun r hr' => ?_⟩
  rcases Finset.mem_insert.1 hr' with rfl | hr'
  · exact huses₀
  · rw [Finset.mem_singleton] at hr'
    exact hr' ▸ huses₁

end RulesSystemtest.Deployment
