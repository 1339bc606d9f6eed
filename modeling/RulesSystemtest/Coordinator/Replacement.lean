import RulesSystemtest.Coordinator.Instances
import RulesSystemtest.Coordinator.LeaseTable

/-! What an insertion does to the leases on the record it replaces. As long as no
record is replaced under a fingerprint with a lease in the table, the instance of
every outstanding lease is stored, its process is not killed, and `status` answers
with its outputs. The first replacement that does so kills the process under its
holders, and from then on `status` speaks of another instance. -/

namespace RulesSystemtest

open Library

variable {H : Host} {h : History} {w w' : World} {e : Event} {o : Obs}

/-! ### Replacements -/

/-- The lease table holds a lease for the fingerprint. -/
def State.leased (st : State) (fp : FixtureFingerprint) : Prop := ∃ id, st.leases.lookup id = some ⟨fp⟩

instance (st : State) (fp : FixtureFingerprint) : Decidable (st.leased fp) :=
  have : Decidable (∃ x ∈ st.leases.entries, @Eq LeaseRecord x.2 ⟨fp⟩) := Multiset.decidableExistsMultiset
  decidable_of_iff (∃ x ∈ st.leases.entries, @Eq LeaseRecord x.2 ⟨fp⟩) <| by
    constructor
    · rintro ⟨⟨id, r⟩, hx, rfl⟩
      exact ⟨id, Finmap.mem_lookup_iff.2 hx⟩
    · rintro ⟨id, hl⟩
      exact ⟨⟨id, _⟩, Finmap.mem_lookup_iff.1 hl, rfl⟩

/-- An insertion under a fingerprint that still has a lease. -/
def ReplacesLeased (t : Moment) : Prop := ∃ x ∈ t.stores?, t.pre.state.leased x.1.fp

/-- Such an insertion whose outputs are not those stored. -/
def ReplacesOutputs (t : Moment) : Prop :=
  ∃ x ∈ t.stores?, t.pre.state.leased x.1.fp ∧
    ∃ r ∈ t.pre.state.fixtures.lookup x.1.fp, r.outputs ≠ x.2.2.outputs

instance (t : Moment) : Decidable (ReplacesLeased t) :=
  decidable_of_iff (t.stores?.any fun x => t.pre.state.leased x.1.fp) <| by
    simp [ReplacesLeased, Option.any_eq_true]

instance (t : Moment) : Decidable (ReplacesOutputs t) :=
  decidable_of_iff (t.stores?.any fun x => t.pre.state.leased x.1.fp ∧
      (t.pre.state.fixtures.lookup x.1.fp).any fun r => r.outputs ≠ x.2.2.outputs) <| by
    simp [ReplacesOutputs, Option.any_eq_true]

theorem owns_eq_fixed (fp : FixtureFingerprint) : w.owns (.record fp) =
    ((w.state.fixtures.lookup fp).map FixtureRecord.fixed).map (·.plugin.child) := by
  simp [World.owns, Function.comp_def, FixtureRecord.fixed]

/-! ### The instance of a lease is stored -/

/-- The record under a lease's fingerprint holds the process of the lease's instance. -/
def Kept (h : History) (w : World) : Prop :=
  ∀ id g, Outstanding h id g → w.owns (.record g.admitted.fp) = some g.child

theorem Outstanding.leased {id : LeaseId} {g : Grant} (hg : Outstanding h id g) (hl : LeaseTable h w) :
    w.state.leased g.admitted.fp := ⟨id, hl.lookup hg⟩

theorem kept_step (hr : Runs H h w) (hf : FreshIds h) (hk : Kept h w) (hst : Step H w e o w')
    (hc : ¬ ReplacesLeased ⟨w, e, o, w'⟩) : Kept (⟨w, e, o, w'⟩ :: h) w' := by
  have old : ∀ id g, Outstanding h id g → w'.owns (.record g.admitted.fp) = some g.child := by
    intro id g hg
    rcases record_step hst g.admitted.fp with hfixed | ⟨x, hx, hfp, -⟩
    · rw [owns_eq_fixed, hfixed, ← owns_eq_fixed]
      exact hk id g hg
    · exact absurd ⟨x, hx, hfp ▸ hg.leased (hr.leaseTable hf)⟩ hc
  intro id g hg
  rcases outstanding_step hg with ho | hg
  · exact (grant_backed (Runs.provenance hr) hst ho).2
  · exact old id g hg

/-- An insertion under the fingerprint of this lease while it is outstanding. -/
def Displaces (id : LeaseId) (h : History) (t : Moment) : Prop :=
  ∃ g, Outstanding h id g ∧ ∃ x ∈ t.stores?, x.1.fp = g.admitted.fp

instance (id : LeaseId) (h : History) (t : Moment) : Decidable (Displaces id h t) :=
  decidable_of_iff ((Ledger.held (ledger h)).any fun y =>
      y.1 = id ∧ t.stores?.any fun x => x.1.fp = y.2.admitted.fp) <| by
    simp [Displaces, Outstanding, Option.any_eq_true]

/-- Whatever becomes of the other records, one that no insertion replaces holds the process
of its lease. -/
theorem Runs.owns_of_undisplaced (hr : Runs H h w) {id : LeaseId} (hs : Along (fun u t => ¬ Displaces id u t) h)
    {g : Grant} (hg : Outstanding h id g) : w.owns (.record g.admitted.fp) = some g.child := by
  induction hr with
  | init => cases hg
  | step hr hst ih =>
    rcases outstanding_step hg with ho | hg
    · exact (grant_backed (Runs.provenance hr) (step_cases hst) ho).2
    · rcases record_step (step_cases hst) g.admitted.fp with hfixed | ⟨x, hx, hfp, -⟩
      · rw [owns_eq_fixed, hfixed, ← owns_eq_fixed]
        exact ih hs.2 hg
      · exact absurd ⟨g, hg, x, hx, hfp⟩ hs.1

theorem kept_init (w : World) (_ : (daemon H).init w) : Kept [] w := fun _ _ hg => by cases hg

theorem LeaseTable.of_leased (hl : LeaseTable h w) {fp : FixtureFingerprint} (hfp : w.state.leased fp) :
    ∃ id g, Outstanding h id g ∧ g.admitted.fp = fp := by
  obtain ⟨id, hid⟩ := hfp
  obtain ⟨g, hg, heq⟩ := (hl.leases id _).1 hid
  exact ⟨id, g, hg, by simpa using heq.symm⟩

/-- An insertion under a leased fingerprint leaves a lease that was granted on the
record it replaced. -/
theorem replaced_lease (hl : LeaseTable h w) (hst : Step H w e o w') {a : Admitted} {plugin : PluginProcess}
    {result : FixtureResult} (hx : Moment.stores? ⟨w, e, o, w'⟩ = some (a, plugin, result))
    (hfp : w.state.leased a.fp) : ∃ id g, g.admitted.fp = a.fp ∧ Outstanding h id g ∧
      Outstanding (⟨w, e, o, w'⟩ :: h) id g := by
  obtain ⟨c, id', rfl, hc⟩ := stores?_eq_some.1 hx
  obtain ⟨id, g, hg, hgfp⟩ := hl.of_leased hfp
  refine ⟨id, g, hgfp, hg, ?_⟩
  cases hst with
  | insert hc' => exact (outstanding_grant rfl).2 (.inr hg)

/-- An insertion hands its plugin to the record, and kills the process of the one it
replaces. -/
theorem insert_replaces (hg : Guarded w) (hst : Step H w e o w') {a : Admitted} {plugin : PluginProcess}
    {result : FixtureResult} (hx : Moment.stores? ⟨w, e, o, w'⟩ = some (a, plugin, result)) {child : Child}
    (howns : w.owns (.record a.fp) = some child) :
    (∃ p, w'.processes.lookup child = some p ∧ p.killed = true) ∧ child ≠ plugin.child ∧
      w'.state.fixtures.lookup a.fp = some (newRecord a plugin result) := by
  obtain ⟨c, id, rfl, hc⟩ := stores?_eq_some.1 hx
  cases hst with
  | @insert _ a' plugin' result' _ hc' =>
    simp only at hc
    rw [hc] at hc'
    obtain ⟨rfl, rfl, rfl⟩ : a = a' ∧ plugin = plugin' ∧ result = result' := by simpa using hc'
    refine ⟨?_, ?_, by simp [insert_fixtures]⟩
    · obtain ⟨p, hp, -⟩ := hg.alive _ _ howns
      have hev := evolves_dropRecord (w := w) (w.state.fixtures.lookup a.fp)
        (u := { w with state := (takeLeaseInsert w.state a plugin result id).2 }) rfl rfl
      obtain ⟨p', hp', -, hkilled, -⟩ := hev.keep child p hp
      exact ⟨p', hp', hkilled.2 (.inr howns)⟩
    · rintro rfl
      exact absurd (hg.exclusive _ _ _ howns (owns_call hc)) (by simp)

/-! ### The process of a leased instance -/

/-- The plugin process of every outstanding lease's instance has not been killed. -/
def Alive (h : History) (w : World) : Prop :=
  ∀ id g, Outstanding h id g → ∃ i ∈ instances h, i.Backs g ∧
    ∃ p, w.processes.lookup i.child = some p ∧ p.killed = false

/-- No process is killed under the holder of a lease, in exactly the runs in which no
insertion replaces a record with a lease. -/
theorem leased_alive_iff (hr : Runs H h w) (hf : FreshIds h) :
    Throughout Alive h w ↔ Along (fun _ t => ¬ ReplacesLeased t) h := by
  refine Machine.Run.throughout_iff freshIds_hereditary kept_init ?keep ?sound ?fails hr hf
  case keep =>
    intro h w e o w' hr hf hk hst hc
    exact kept_step hr (freshIds_hereditary _ _ hf) hk (step_cases hst) hc
  case sound =>
    intro h w hr hf hk id g hg
    obtain ⟨i, hi, hb⟩ := (Runs.lent hr).backed id g hg
    exact ⟨i, hi, hb, hb.child ▸ (Runs.guarded hr).alive _ _ (hk id g hg)⟩
  case fails =>
    rintro h w e o w' hr hf hk hst halive ⟨⟨a, plugin, result⟩, hx, hleased⟩
    have hl := Runs.leaseTable hr (freshIds_hereditary _ _ hf)
    obtain ⟨id, g, hfp, hg, hg'⟩ := replaced_lease hl (step_cases hst) hx hleased
    obtain ⟨⟨p, hp, hkilled⟩, -⟩ := insert_replaces (Runs.guarded hr) (step_cases hst) hx (hfp ▸ hk id g hg)
    obtain ⟨i, -, hb, p', hp', halive⟩ := halive id g hg'
    rw [hb.child, hp, Option.some.injEq] at hp'
    rw [← hp', hkilled] at halive
    cases halive

/-- A client that leases a fixture, releases it and attaches again, and another one
with a fixture of its own. -/
theorem leased_alive_iff_sample :
    let run := sampleRun (sampleTake 0 "redis" "alice" "l0" "6379" ++ sampleTake 1 "mysql" "bob" "l1" "3306" ++
      .releaseLease "l0" :: sampleCheck 2 "redis" "alice" "l2")
    Throughout Alive run.1 run.2 := by
  intro run
  exact (leased_alive_iff (sampleRun_runs _) (show FreshIds run.1 by decide)).2 (by decide)

/-- A second client's private fixture replaces the first one's, whose process dies. -/
theorem leased_not_alive : ¬ ∀ (H : Host) (h : History) (w : World), Runs H h w → FreshIds h → Alive h w := by
  intro hall
  let run := sampleRun (sampleTake 0 "redis" "alice" "l0" "6379" ++ sampleTake 1 "redis" "bob" "l1" "6380")
  obtain ⟨i, -, hb, p, hp, halive⟩ := hall sampleHost run.1 run.2 (sampleRun_runs _) (by decide) ⟨"l0"⟩
    ⟨0, sampleAdmitted "redis" "alice", ⟨0⟩, sampleOutputs "6379"⟩ (by decide)
  have hdead : (run.2.processes.lookup ⟨0⟩).map (·.killed) = some true := by decide
  rw [hb.child] at hp
  rw [hp, Option.map_some, halive] at hdead
  cases hdead

/-! ### What status answers -/

/-- `status` answers every outstanding lease with the outputs it was granted. -/
def AnswersOutputs (H : Host) (h : History) (w : World) : Prop :=
  ∀ id g, Outstanding h id g → step H w (.status id.value) =
    some (.reported id.value (.ok ⟨LeaseStatus.succeeded.toInt32, g.outputs, []⟩), w)

/-- And the record it reads them from is that of the lease's instance. -/
def AnswersInstance (H : Host) (h : History) (w : World) : Prop :=
  AnswersOutputs H h w ∧ ∀ id g, Outstanding h id g → ∃ i ∈ instances h, i.Backs g ∧
    w.state.leases.lookup id = some ⟨i.admitted.fp⟩ ∧
    ∃ r, w.state.fixtures.lookup i.admitted.fp = some r ∧ r = { i.record with usedSlots := r.usedSlots }

/-- The record under a lease's fingerprint has the outputs that were granted. -/
def KeptOutputs (h : History) (w : World) : Prop :=
  ∀ id g, Outstanding h id g → ∃ r, w.state.fixtures.lookup g.admitted.fp = some r ∧ r.outputs = g.outputs

theorem step_status {id : LeaseId} {g : Grant} (hl : LeaseTable h w) (hg : Outstanding h id g)
    {r : FixtureRecord} (hr : w.state.fixtures.lookup g.admitted.fp = some r) :
    step H w (.status id.value) =
      some (.reported id.value (.ok ⟨LeaseStatus.succeeded.toInt32, r.outputs, []⟩), w) := by
  rw [step, status_known (hl.lookup hg) hr]

theorem grant_outputs (hst : Step H w e o w') {id : LeaseId} {g : Grant}
    (ho : o.entry? = some (.grant id g)) :
    ∃ r, w'.state.fixtures.lookup g.admitted.fp = some r ∧ r.outputs = g.outputs := by
  cases hst with
  | @attach c a record id hc hf =>
    obtain ⟨-, rfl⟩ := Ledger.Entry.grant.inj (Option.some.inj ho)
    refine ⟨{ record with usedSlots := record.usedSlots + 1 }, ?_, rfl⟩
    rw [setCall_state, attach_fixtures, if_pos rfl]
  | @insert c a plugin result id hc =>
    obtain ⟨-, rfl⟩ := Ledger.Entry.grant.inj (Option.some.inj ho)
    refine ⟨newRecord a plugin result, ?_, rfl⟩
    rw [setCall_state, dropRecord_state, insert_fixtures, if_pos rfl]
  | _ => cases ho

theorem keptOutputs_step (hr : Runs H h w) (hf : FreshIds h) (hk : KeptOutputs h w) (hst : Step H w e o w')
    (hc : ¬ ReplacesOutputs ⟨w, e, o, w'⟩) : KeptOutputs (⟨w, e, o, w'⟩ :: h) w' := by
  have old : ∀ id g, Outstanding h id g →
      ∃ r, w'.state.fixtures.lookup g.admitted.fp = some r ∧ r.outputs = g.outputs := by
    intro id g hg
    obtain ⟨r, hrec, hout⟩ := hk id g hg
    rcases record_step hst g.admitted.fp with hfixed | ⟨x, hx, hfp, hnew⟩
    · rw [hrec] at hfixed
      obtain ⟨r', hrec', heq⟩ := Option.map_eq_some_iff.1 hfixed
      exact ⟨r', hrec', (congrArg FixtureRecord.outputs heq).trans hout⟩
    · refine ⟨_, hnew, ?_⟩
      by_contra hne
      refine hc ⟨x, hx, hfp ▸ hg.leased (hr.leaseTable hf), r, hfp ▸ hrec, fun heq => hne ?_⟩
      exact heq.symm.trans hout
  intro id g hg
  rcases outstanding_step hg with ho | hg
  · exact grant_outputs hst ho
  · exact old id g hg

theorem keptOutputs_init (w : World) (_ : (daemon H).init w) : KeptOutputs [] w := fun _ _ hg => by cases hg

/-- A record that holds the process of a lease is that of the lease's instance. -/
theorem stored_of_owns (hr : Runs H h w) {id : LeaseId} {g : Grant} (hg : Outstanding h id g)
    (hk : w.owns (.record g.admitted.fp) = some g.child) : ∃ i ∈ instances h, i.Backs g ∧
      ∃ r, w.state.fixtures.lookup g.admitted.fp = some r ∧ r = { i.record with usedSlots := r.usedSlots } := by
  have hp := Runs.provenance hr
  obtain ⟨r, hrec, hchild⟩ := Option.map_eq_some_iff.1 hk
  obtain ⟨i, hi, hb⟩ := (Runs.lent hr).backed id g hg
  obtain ⟨j, hj, -, hrj⟩ := hp.stored _ r hrec
  have hji : j.child = i.child := by
    rw [hb.child, ← hchild, hrj]
    rfl
  obtain rfl := hp.eq_of_child hj hi hji
  exact ⟨j, hj, hb, r, hrec, hrj⟩

/-- `status` of such a lease answers with the outputs that were granted. -/
theorem status_of_owns (hr : Runs H h w) (hf : FreshIds h) {id : LeaseId} {g : Grant} (hg : Outstanding h id g)
    (hk : w.owns (.record g.admitted.fp) = some g.child) : step H w (.status id.value) =
      some (.reported id.value (.ok ⟨LeaseStatus.succeeded.toInt32, g.outputs, []⟩), w) := by
  obtain ⟨i, -, hb, r, hrec, hri⟩ := stored_of_owns hr hg hk
  have hout : r.outputs = g.outputs := by
    rw [hri]
    exact hb.outputs
  rw [step_status (hr.leaseTable hf) hg hrec, hout]

/-- While its instance is stored, `status` of a lease answers from that instance. -/
theorem Kept.answers (hr : Runs H h w) (hf : FreshIds h) (hk : Kept h w) : AnswersInstance H h w := by
  refine ⟨fun id g hg => status_of_owns hr hf hg (hk id g hg), fun id g hg => ?_⟩
  obtain ⟨i, hi, hb, r, hrec, hri⟩ := stored_of_owns hr hg (hk id g hg)
  exact ⟨i, hi, hb, hb.fp ▸ (hr.leaseTable hf).lookup hg, r, hb.fp ▸ hrec, hri⟩

theorem KeptOutputs.answers (hl : LeaseTable h w) (hk : KeptOutputs h w) : AnswersOutputs H h w := by
  intro id g hg
  obtain ⟨r, hrec, hout⟩ := hk id g hg
  rw [step_status hl hg hrec, hout]

/-- A lease keeps denoting its instance, outputs and all, in exactly the runs in which
no insertion replaces a record with a lease. Its outputs alone stay in exactly those
in which no such insertion changes them. -/
theorem lease_denotes_iff (hr : Runs H h w) (hf : FreshIds h) :
    (Throughout (AnswersInstance H) h w ↔ Along (fun _ t => ¬ ReplacesLeased t) h) ∧
    (Throughout (AnswersOutputs H) h w ↔ Along (fun _ t => ¬ ReplacesOutputs t) h) := by
  constructor
  · refine Machine.Run.throughout_iff freshIds_hereditary kept_init ?keep ?sound ?fails hr hf
    case keep =>
      intro h w e o w' hr hf hk hst hc
      exact kept_step hr (freshIds_hereditary _ _ hf) hk (step_cases hst) hc
    case sound => exact fun h w hr hf hk => hk.answers hr hf
    case fails =>
      rintro h w e o w' hr hf hk hst ⟨-, hans⟩ ⟨⟨a, plugin, result⟩, hx, hleased⟩
      have hl := Runs.leaseTable hr (freshIds_hereditary _ _ hf)
      obtain ⟨id, g, hfp, hg, hg'⟩ := replaced_lease hl (step_cases hst) hx hleased
      obtain ⟨-, hother, hnew⟩ := insert_replaces (Runs.guarded hr) (step_cases hst) hx (hfp ▸ hk id g hg)
      obtain ⟨i, -, hb, -, r, hrec, hri⟩ := hans id g hg'
      rw [hb.fp, hfp, hnew, Option.some.injEq] at hrec
      apply hother
      rw [← hb.child]
      exact congrArg (·.plugin.child) (hri.symm.trans hrec.symm)
  · refine Machine.Run.throughout_iff freshIds_hereditary keptOutputs_init ?keep2 ?sound2 ?fails2 hr hf
    case keep2 =>
      intro h w e o w' hr hf hk hst hc
      exact keptOutputs_step hr (freshIds_hereditary _ _ hf) hk (step_cases hst) hc
    case sound2 => exact fun h w hr hf hk => hk.answers (Runs.leaseTable hr hf)
    case fails2 =>
      rintro h w e o w' hr hf hk hst hans ⟨⟨a, plugin, result⟩, hx, hleased, r, hrec, hne⟩
      have hl := Runs.leaseTable hr (freshIds_hereditary _ _ hf)
      obtain ⟨id, g, hfp, hg, hg'⟩ := replaced_lease hl (step_cases hst) hx hleased
      obtain ⟨-, -, hnew⟩ := insert_replaces (Runs.guarded hr) (step_cases hst) hx (owns_record hrec)
      have hl' := Runs.leaseTable (.step hr hst) hf
      have hstatus := hans id g hg'
      rw [step_status hl' hg' (hfp ▸ hnew)] at hstatus
      obtain ⟨r', hrec', hout⟩ := hk id g hg
      obtain rfl : r' = r := by
        rw [hfp] at hrec'
        exact Option.some.inj (hrec'.symm.trans hrec)
      apply hne
      rw [hout]
      simpa [newRecord] using hstatus.symm

theorem lease_denotes_iff_sample :
    let run := sampleRun (sampleTake 0 "redis" "alice" "l0" "6379" ++ sampleTake 1 "mysql" "bob" "l1" "3306" ++
      .releaseLease "l0" :: sampleCheck 2 "redis" "alice" "l2")
    Throughout (AnswersInstance sampleHost) run.1 run.2 ∧ Throughout (AnswersOutputs sampleHost) run.1 run.2 := by
  intro run
  obtain ⟨denotes, outputs⟩ := lease_denotes_iff (sampleRun_runs _) (show FreshIds run.1 by decide)
  exact ⟨denotes.2 (by decide), outputs.2 (by decide)⟩

/-- After the second client's fixture replaced the first one's, the first client's
lease reports the second one's outputs. -/
theorem lease_not_denotes : ¬ ∀ (H : Host) (h : History) (w : World), Runs H h w → FreshIds h →
    AnswersOutputs H h w := by
  intro hall
  let run := sampleRun (sampleTake 0 "redis" "alice" "l0" "6379" ++ sampleTake 1 "redis" "bob" "l1" "6380")
  have hstatus := hall sampleHost run.1 run.2 (sampleRun_runs _) (by decide) ⟨"l0"⟩
    ⟨0, sampleAdmitted "redis" "alice", ⟨0⟩, sampleOutputs "6379"⟩ (by decide)
  simp only [step, Option.some.injEq, Prod.mk.injEq, Obs.reported.injEq, true_and, and_true] at hstatus
  exact absurd hstatus (by decide)

end RulesSystemtest
