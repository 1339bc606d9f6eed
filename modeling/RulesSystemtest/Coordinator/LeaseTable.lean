import RulesSystemtest.Coordinator.History

/-! The lease table. Under ids that never repeat it holds exactly the outstanding
leases, each under the fingerprint it was granted for, and every fingerprint it
names has a fixture record. -/

namespace RulesSystemtest

open Library

variable {H : Host} {h : History} {w w' : World} {e : Event} {o : Obs}

structure LeaseTable (h : History) (w : World) : Prop where
  leases : ∀ id r, w.state.leases.lookup id = some r ↔ ∃ g, Outstanding h id g ∧ r = ⟨g.admitted.fp⟩
  backed : ∀ id r, w.state.leases.lookup id = some r →
    ∃ record, w.state.fixtures.lookup r.fingerprint = some record

theorem leaseTable_start (files : FileSystem) : LeaseTable [] (World.start files) where
  leases := by simp [World.start, Outstanding, ledger, Ledger.held]
  backed := by simp [World.start]

/-- A grant under `fp`, whichever section made it. -/
theorem LeaseTable.grant (hl : LeaseTable h w) {id : LeaseId} {g : Grant}
    (hf : FreshIds (⟨w, e, o, w'⟩ :: h)) (ho : o.entry? = some (.grant id g))
    (hleases : ∀ id', w'.state.leases.lookup id' =
      if id' = id then some ⟨g.admitted.fp⟩ else w.state.leases.lookup id')
    {record : FixtureRecord} (hfixtures : ∀ fp, w'.state.fixtures.lookup fp =
      if fp = g.admitted.fp then some record else w.state.fixtures.lookup fp) :
    LeaseTable (⟨w, e, o, w'⟩ :: h) w' where
  leases id' r := by
    rw [hleases]
    by_cases hid : id' = id
    · subst hid
      rw [if_pos rfl]
      constructor
      · rintro hr
        exact ⟨g, (outstanding_grant ho).2 (.inl ⟨rfl, rfl⟩), (Option.some.inj hr).symm⟩
      · rintro ⟨g', hg', rfl⟩
        rcases (outstanding_grant ho).1 hg' with ⟨-, rfl⟩ | hg'
        · rfl
        · exact absurd hg' (hf.not_outstanding ho g')
    · rw [if_neg hid, hl.leases]
      simp [outstanding_grant ho, hid]
  backed id' r hr := by
    rw [hfixtures]
    split
    · exact ⟨record, rfl⟩
    · next hne =>
      rw [hleases] at hr
      split at hr
      · exact absurd (by rw [← Option.some.inj hr]) hne
      · exact hl.backed id' r hr

theorem leaseTable_step (hf : FreshIds (⟨w, e, o, w'⟩ :: h)) (hl : LeaseTable h w)
    (he : Effect w o w') : LeaseTable (⟨w, e, o, w'⟩ :: h) w' := by
  cases he with
  | quiet hs ho =>
    constructor
    · intro id r
      rw [hs, hl.leases]
      simp only [outstanding_quiet ho]
    · rw [hs]
      exact hl.backed
  | attach c a record id hc hr hs ho =>
    exact hl.grant hf ho (fun id' => by rw [hs]; exact attach_leases id')
      (fun fp => by rw [hs]; exact attach_fixtures fp)
  | insert c a plugin result id hc hs ho =>
    exact hl.grant hf ho (fun id' => by rw [hs]; exact insert_leases id')
      (fun fp => by rw [hs]; exact insert_fixtures fp)
  | release leaseId hs ho =>
    constructor
    · intro id r
      rw [hs, release_leases]
      by_cases hid : id = ⟨leaseId⟩
      · simp [hid, outstanding_release ho]
      · rw [if_neg hid, hl.leases]
        simp [outstanding_release ho, hid]
    · intro id r hr
      rw [hs, release_leases] at hr
      split at hr
      · cases hr
      · obtain ⟨record, hrec⟩ := hl.backed id r hr
        rw [hs, release_fixtures, hrec]
        split
        · exact ⟨_, rfl⟩
        · exact ⟨record, rfl⟩

theorem Runs.leaseTable (hr : Runs H h w) (hf : FreshIds h) : LeaseTable h w := by
  refine Machine.Run.invariant freshIds_hereditary (I := LeaseTable) ?_ ?_ hr hf
  · rintro _ ⟨files, rfl⟩
    exact leaseTable_start files
  · intro h w e o w' _ hf hl hst
    exact leaseTable_step hf hl (step_effect (step_cases hst))

theorem LeaseTable.lookup (hl : LeaseTable h w) {id : LeaseId} {g : Grant} (hg : Outstanding h id g) :
    w.state.leases.lookup id = some ⟨g.admitted.fp⟩ :=
  (hl.leases id _).2 ⟨g, hg, rfl⟩

/-! ### Leases in terms of the calls executed -/

def Moment.Grants (t : Moment) (id : LeaseId) : Prop := ∃ g resp, t.obs = .granted id g resp

/-- Some `take_lease` inserted the id and no `release_lease` of it has executed since. -/
def Live (h : History) (id : LeaseId) : Prop :=
  ∃ newer t older, h = newer ++ t :: older ∧ Moment.Grants t id ∧
    ∀ u ∈ newer, u.event ≠ .releaseLease id.value

theorem live_cons {t : Moment} {id : LeaseId} :
    Live (t :: h) id ↔ Moment.Grants t id ∨ t.event ≠ .releaseLease id.value ∧ Live h id := by
  constructor
  · rintro ⟨newer, u, older, he, hu, hn⟩
    cases newer with
    | nil =>
      obtain ⟨rfl, -⟩ := List.cons.inj he
      exact .inl hu
    | cons t' newer =>
      obtain ⟨rfl, rfl⟩ := List.cons.inj he
      exact .inr ⟨hn t (by simp), newer, u, older, rfl, hu, fun v hv => hn v (by simp [hv])⟩
  · rintro (hg | ⟨ht, newer, u, older, rfl, hu, hn⟩)
    · exact ⟨[], t, h, rfl, hg, by simp⟩
    · refine ⟨t :: newer, u, older, rfl, hu, ?_⟩
      intro v hv
      rcases List.mem_cons.1 hv with rfl | hv
      · exact ht
      · exact hn v hv

/-- A step is a release of an id exactly when the ledger enters it so. -/
theorem entry_release_iff (hst : Step H w e o w') {id : LeaseId} :
    o.entry? = some (.release id) ↔ e = .releaseLease id.value := by
  obtain ⟨value⟩ := id
  cases hst <;> simp [Obs.entry?]

theorem entry_grant_iff {id : LeaseId} {s : World} :
    (∃ g, o.entry? = some (.grant id g)) ↔ Moment.Grants ⟨w, e, o, s⟩ id := by
  cases o <;> simp [Obs.entry?, Moment.Grants]

/-- The outstanding leases are the live ids. -/
theorem Runs.live_iff (hr : Runs H h w) (id : LeaseId) : Live h id ↔ ∃ g, Outstanding h id g := by
  induction hr with
  | init _ => simp [Live, Outstanding, ledger, Ledger.held]
  | @step h w w' e o hr hst ih =>
    have hst := step_cases hst
    rw [live_cons, ih, ← entry_grant_iff, ne_eq, ← entry_release_iff hst]
    cases ho : o.entry? with
    | none => simp [outstanding_quiet ho]
    | some x =>
      cases x with
      | grant id' g =>
        simp only [outstanding_grant ho, Option.some.injEq, Ledger.Entry.grant.injEq, reduceCtorEq,
          not_false_eq_true, true_and, exists_or]
        simp [eq_comm]
      | release id' =>
        simp only [outstanding_release ho, Option.some.injEq, Ledger.Entry.release.injEq, reduceCtorEq,
          exists_false, false_or]
        rw [exists_and_right, and_comm, ne_eq, eq_comm]

/-- A lease that was granted and released later is dead in the rest of the run. -/
theorem Runs.not_live_of_released (hr : Runs H h w) (hf : FreshIds h) {id : LeaseId} {t u : Moment}
    {newer mid older : History} (hh : h = newer ++ t :: (mid ++ u :: older))
    (ht : t.event = .releaseLease id.value) (hu : Moment.Grants u id) : ¬ Live h id := by
  obtain ⟨g, resp, hu⟩ := hu
  have hst := step_cases (hr.mem (t := t) (by simp [hh]))
  have hl : ledger h = ledger newer ++ .release id :: (ledger mid ++ .grant id g :: ledger older) := by
    have hrel := (entry_release_iff hst).2 ht
    have hgrant : u.obs.entry? = some (.grant id g) := by rw [hu]; rfl
    simp [hh, ledger, hrel, hgrant]
  rw [hr.live_iff, not_exists]
  unfold Outstanding FreshIds at *
  rw [hl] at hf ⊢
  exact Ledger.not_held_of_released hf

/-- The lease table is exact, and the silent fallbacks of `status` and
`release_lease` are never taken. -/
theorem lease_table_exact (hr : Runs H h w) (hf : FreshIds h) :
    (∀ id, (∃ lease, w.state.leases.lookup id = some lease) ↔ Live h id) ∧
    (∀ id, Live h id →
      step H w (.keepalive id.value) = some (.kept id.value (.ok ()), w) ∧
      ∃ lease record, w.state.leases.lookup id = some lease ∧
        w.state.fixtures.lookup lease.fingerprint = some record ∧
        step H w (.status id.value) = some (.reported id.value
          (.ok ⟨LeaseStatus.succeeded.toInt32, record.outputs, []⟩), w) ∧
        (releaseLease w.state id.value).fixtures.lookup lease.fingerprint =
          some { record with usedSlots := max (record.usedSlots - 1) 0 }) ∧
    (∀ id, ¬ Live h id →
      step H w (.keepalive id.value) =
        some (.kept id.value (.error ⟨.notFound, "unknown lease_id"⟩), w) ∧
      step H w (.status id.value) =
        some (.reported id.value (.error ⟨.notFound, "unknown lease_id"⟩), w)) ∧
    (∀ id newer t mid u older, h = newer ++ t :: (mid ++ u :: older) →
      t.event = .releaseLease id.value → Moment.Grants u id → ¬ Live h id) := by
  have hl := hr.leaseTable hf
  have table : ∀ id, (∃ lease, w.state.leases.lookup id = some lease) ↔ Live h id := by
    intro id
    rw [hr.live_iff]
    constructor
    · rintro ⟨lease, hlease⟩
      obtain ⟨g, hg, -⟩ := (hl.leases id lease).1 hlease
      exact ⟨g, hg⟩
    · rintro ⟨g, hg⟩
      exact ⟨_, hl.lookup hg⟩
  refine ⟨table, ?_, ?_, fun id newer t mid u older hh ht hu => hr.not_live_of_released hf hh ht hu⟩
  · intro id hlive
    obtain ⟨lease, hlease⟩ := (table id).2 hlive
    obtain ⟨record, hrecord⟩ := hl.backed id lease hlease
    refine ⟨?_, lease, record, hlease, hrecord, ?_, ?_⟩
    · rw [step, keepalive_known hlease]
    · rw [step, status_known hlease hrecord]
    · rw [release_fixtures, if_pos hlease, hrecord]
      rfl
  · intro id hdead
    have hnone : w.state.leases.lookup id = none := by
      cases hlease : w.state.leases.lookup id with
      | none => rfl
      | some lease => exact absurd ((table id).1 ⟨lease, hlease⟩) hdead
    constructor
    · rw [step, keepalive_unknown hnone]
    · rw [step, status_unknown hnone]

/-- Two fixtures leased, one lease released and an unknown id released too. -/
theorem lease_table_exact_sample :
    let run := sampleRun (sampleTake 0 "redis" "alice" "l0" "6379" ++
      sampleTake 1 "mysql" "bob" "l1" "3306" ++ [.releaseLease "l0", .releaseLease "x"])
    Live run.1 ⟨"l1"⟩ ∧ ¬ Live run.1 ⟨"l0"⟩ := by
  intro run
  obtain ⟨table, -⟩ := lease_table_exact (sampleRun_runs _) (show FreshIds run.1 by decide)
  constructor
  · exact (table ⟨"l1"⟩).1 (Option.isSome_iff_exists.1 (by decide))
  · rw [← table ⟨"l0"⟩, ← Option.isSome_iff_exists]
    decide

end RulesSystemtest
