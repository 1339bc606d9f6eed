import RulesSystemtest.Coordinator.Instances
import RulesSystemtest.Coordinator.LeaseTable

/-! Slot counting. `SlotMove` relates what one step does to a record's counter with
what it does to the leases outstanding on the record's own instance. The counter
never runs ahead of them, so reuse is complete. It falls behind them only when the
release of a lease on a replaced instance takes a slot off the record that replaced
it; without such releases no slot limit is exceeded. -/

namespace RulesSystemtest

open Library

variable {H : Host} {h : History} {w w' : World} {e : Event} {o : Obs}

/-! ### The counter as an integer -/

theorem toInt_max (a b : Int64) : (max a b).toInt = max a.toInt b.toInt := by
  change (if a ≤ b then b else a).toInt = _
  split
  · next hle => exact (max_eq_right (Int64.le_iff_toInt_le.1 hle)).symm
  · next hle => exact (max_eq_left (not_le.1 (mt Int64.le_iff_toInt_le.2 hle)).le).symm

theorem maxSlots_toInt (sharing : Sharing) :
    (maxSlots sharing).toInt = max sharing.maximumConcurrentConnections.toInt 1 := toInt_max ..

theorem one_le_maxSlots (sharing : Sharing) : 1 ≤ (maxSlots sharing).toInt := by
  rw [maxSlots_toInt]
  exact le_max_right ..

theorem succ_toInt {used limit : Int64} (h : used < limit) : (used + 1).toInt = used.toInt + 1 := by
  rw [Int64.lt_iff_toInt_lt] at h
  have hlow := used.le_toInt
  have hhigh := limit.toInt_lt
  rw [Int64.toInt_add, Int64.toInt_one, Int.bmod_eq_of_le] <;> omega

theorem pred_toInt {used : Int64} (h : 0 ≤ used.toInt) : (used - 1).toInt = used.toInt - 1 := by
  have hhigh := used.toInt_lt
  rw [Int64.toInt_sub, Int64.toInt_one, Int.bmod_eq_of_le] <;> omega

theorem release_toInt {used : Int64} (h : 0 ≤ used.toInt) :
    (max (used - 1) 0).toInt = max (used.toInt - 1) 0 := by
  rw [toInt_max, pred_toInt h, Int64.toInt_zero]

/-! ### What a step does to a counter and to the leases it counts -/

theorem outstandingOn_quiet (ho : o.entry? = none) (child : Child) :
    outstandingOn (⟨w, e, o, w'⟩ :: h) child = outstandingOn h child := by
  rw [outstandingOn, ledger_quiet ho, outstandingOn]

theorem outstandingOn_grant {id : LeaseId} {g : Grant} (ho : o.entry? = some (.grant id g)) (child : Child) :
    outstandingOn (⟨w, e, o, w'⟩ :: h) child = outstandingOn h child + if g.child = child then 1 else 0 := by
  rw [outstandingOn, ledger_entry ho, Ledger.load_grant, outstandingOn]
  simp

theorem outstandingOn_release {id : LeaseId} {g : Grant} (hf : FreshIds h) (hg : Outstanding h id g)
    (ho : o.entry? = some (.release id)) (child : Child) :
    outstandingOn h child = outstandingOn (⟨w, e, o, w'⟩ :: h) child + if g.child = child then 1 else 0 := by
  rw [outstandingOn, outstandingOn, ledger_entry ho, Ledger.load_release hf hg]
  simp

theorem outstandingOn_unknown {id : LeaseId} (hg : ∀ g, ¬ Outstanding h id g)
    (ho : o.entry? = some (.release id)) (child : Child) :
    outstandingOn (⟨w, e, o, w'⟩ :: h) child = outstandingOn h child := by
  rw [outstandingOn, outstandingOn, ledger_entry ho, Ledger.load, Ledger.held_release_of_not_held hg, Ledger.load]

theorem outstandingOn_eq_zero {child : Child} (hg : ∀ id g, Outstanding h id g → g.child ≠ child) :
    outstandingOn h child = 0 := by
  refine List.countP_eq_zero.2 ?_
  rintro ⟨id, g⟩ hm
  simpa using hg id g hm

/-- The record stored under `fp` after a step, told from the one before. -/
inductive SlotMove (h : History) (t : Moment) (fp : FixtureFingerprint) (r' : FixtureRecord) : Prop where
  | kept (hr : t.pre.state.fixtures.lookup fp = some r')
      (hn : outstandingOn (t :: h) r'.plugin.child = outstandingOn h r'.plugin.child)
  | attached (r : FixtureRecord) (hr : t.pre.state.fixtures.lookup fp = some r)
      (hs : r.sharing.useScope ≠ some .singleUse) (hfree : r.usedSlots < maxSlots r.sharing)
      (he : r' = { r with usedSlots := r.usedSlots + 1 })
      (hn : outstandingOn (t :: h) r.plugin.child = outstandingOn h r.plugin.child + 1)
  | inserted (hu : r'.usedSlots = 1) (hn : outstandingOn (t :: h) r'.plugin.child = 1)
  | freed (r : FixtureRecord) (hr : t.pre.state.fixtures.lookup fp = some r)
      (he : r' = { r with usedSlots := max (r.usedSlots - 1) 0 })
      (hn : outstandingOn h r.plugin.child = outstandingOn (t :: h) r.plugin.child + 1)
  | stolen (r : FixtureRecord) (leaseId : String) (g : Grant)
      (hr : t.pre.state.fixtures.lookup fp = some r)
      (he : r' = { r with usedSlots := max (r.usedSlots - 1) 0 })
      (hn : outstandingOn (t :: h) r.plugin.child = outstandingOn h r.plugin.child)
      (hev : t.event = .releaseLease leaseId) (hg : Outstanding h ⟨leaseId⟩ g)
      (hfp : g.admitted.fp = fp) (hc : g.child ≠ r.plugin.child)

theorem sharingAdmits_not_singleUse {sharing : Sharing} {creator requester : String}
    (h : sharingAdmits sharing creator requester = true) : sharing.useScope ≠ some .singleUse := by
  intro hs
  simp [sharingAdmits, hs] at h

theorem slotMove_of_step (hr : Runs H h w) (hf : FreshIds (⟨w, e, o, w'⟩ :: h)) (hst : Step H w e o w')
    {fp : FixtureFingerprint} {r' : FixtureRecord} (hl : w'.state.fixtures.lookup fp = some r') :
    SlotMove h ⟨w, e, o, w'⟩ fp r' := by
  have hg := Runs.guarded hr
  have hfp := freshIds_hereditary _ _ hf
  cases step_effect hst with
  | quiet hs ho => exact .kept (hs ▸ hl) (outstandingOn_quiet ho _)
  | attach c a record id hc hfree hs ho =>
    obtain ⟨hrec, hadmits, hlt⟩ := findReusable_eq_some.1 hfree
    rw [hs, attach_fixtures] at hl
    split at hl
    · next heq =>
      obtain rfl := Option.some.inj hl
      refine .attached record (heq ▸ hrec) (sharingAdmits_not_singleUse hadmits) hlt rfl ?_
      rw [outstandingOn_grant ho, if_pos rfl]
    · next hne =>
      refine .kept hl ?_
      have hother : record.plugin.child ≠ r'.plugin.child := by
        intro hch
        have := hg.exclusive _ _ _ (owns_record hl) (hch ▸ owns_record hrec)
        exact hne (by simpa using this)
      rw [outstandingOn_grant ho, if_neg hother, Nat.add_zero]
  | insert c a plugin result id hc hs ho =>
    have howns : w.owns (.call c) = some plugin.child := owns_call hc
    rw [hs, insert_fixtures] at hl
    split at hl
    · obtain rfl := Option.some.inj hl
      have hnone : outstandingOn h plugin.child = 0 := by
        refine outstandingOn_eq_zero fun id g hout hch => ?_
        have := (Runs.lent hr).owner id g hout _ (hch ▸ howns)
        cases this
      refine .inserted rfl ?_
      change outstandingOn _ plugin.child = 1
      rw [outstandingOn_grant ho, if_pos rfl, hnone]
    · next hne =>
      refine .kept hl ?_
      have hother : plugin.child ≠ r'.plugin.child := by
        intro hch
        have := hg.exclusive _ _ _ (owns_record hl) (hch ▸ howns)
        cases this
      rw [outstandingOn_grant ho, if_neg hother, Nat.add_zero]
  | release leaseId hs ho =>
    have hev : e = .releaseLease leaseId := (entry_release_iff hst).1 ho
    have htable := hr.leaseTable hfp
    rw [hs, release_fixtures] at hl
    by_cases hknown : ∃ g, Outstanding h ⟨leaseId⟩ g
    · obtain ⟨g, hout⟩ := hknown
      have hlease := htable.lookup hout
      split at hl
      · next heq =>
        obtain ⟨r, hr₀, rfl⟩ := Option.map_eq_some_iff.1 hl
        have hgfp : g.admitted.fp = fp := by simpa [hlease] using heq
        have hn : outstandingOn h r.plugin.child =
            outstandingOn (⟨w, e, o, w'⟩ :: h) r.plugin.child + _ := outstandingOn_release hfp hout ho _
        by_cases hch : g.child = r.plugin.child
        · rw [if_pos hch] at hn
          exact .freed r hr₀ rfl hn
        · rw [if_neg hch] at hn
          exact .stolen r leaseId g hr₀ rfl hn.symm hev hout hgfp hch
      · next hne =>
        have hother : g.child ≠ r'.plugin.child := by
          intro hch
          have := (Runs.lent hr).owner _ g hout _ (hch ▸ owns_record hl)
          exact hne (by rw [hlease]; simpa using this.symm)
        have hn : outstandingOn h r'.plugin.child =
            outstandingOn (⟨w, e, o, w'⟩ :: h) r'.plugin.child + _ := outstandingOn_release hfp hout ho _
        rw [if_neg hother] at hn
        exact .kept hl hn.symm
    · have hnone : ∀ r, w.state.leases.lookup ⟨leaseId⟩ ≠ some r := fun r hr₀ =>
        hknown (by obtain ⟨g, hout, -⟩ := (htable.leases _ r).1 hr₀; exact ⟨g, hout⟩)
      rw [if_neg (hnone _)] at hl
      exact .kept hl (outstandingOn_unknown (not_exists.1 hknown) ho _)

/-! ### Reuse is complete -/

/-- A counter stays within its limit and never runs ahead of the leases it counts. -/
structure Counted (h : History) (r : FixtureRecord) : Prop where
  nonneg : 0 ≤ r.usedSlots.toInt
  limit : r.usedSlots.toInt ≤ (maxSlots r.sharing).toInt
  lent : r.usedSlots.toInt ≤ outstandingOn h r.plugin.child

theorem counted_step {t : Moment} {fp : FixtureFingerprint} {r' : FixtureRecord} (hm : SlotMove h t fp r')
    (hi : ∀ fp r, t.pre.state.fixtures.lookup fp = some r → Counted h r) : Counted (t :: h) r' := by
  cases hm with
  | kept hr hn =>
    obtain ⟨h0, hmax, hout⟩ := hi fp r' hr
    exact ⟨h0, hmax, by rwa [hn]⟩
  | attached r hr hs hfree he hn =>
    obtain ⟨h0, hmax, hout⟩ := hi fp r hr
    have hlt := Int64.lt_iff_toInt_lt.1 hfree
    have hsucc := succ_toInt hfree
    subst he
    constructor <;> simp only [hsucc, hn] <;> omega
  | inserted hu hn =>
    have hone := one_le_maxSlots r'.sharing
    constructor <;> simp only [hu, hn, Int64.toInt_one] <;> omega
  | freed r hr he hn =>
    obtain ⟨h0, hmax, hout⟩ := hi fp r hr
    have hrel := release_toInt h0
    subst he
    constructor <;> simp only [hrel] <;> omega
  | stolen r leaseId g hr he hn hev hg hfp hc =>
    obtain ⟨h0, hmax, hout⟩ := hi fp r hr
    have hrel := release_toInt h0
    subst he
    constructor <;> simp only [hrel, hn] <;> omega

theorem Runs.counted (hr : Runs H h w) (hf : FreshIds h) {fp : FixtureFingerprint} {r : FixtureRecord}
    (hl : w.state.fixtures.lookup fp = some r) : Counted h r := by
  refine Machine.Run.invariant freshIds_hereditary
    (I := fun h w => ∀ fp r, w.state.fixtures.lookup fp = some r → Counted h r) ?_ ?_ hr hf fp r hl
  · rintro _ ⟨files, rfl⟩ fp r hr
    simp [World.start] at hr
  · intro h w e o w' hr hf hi hst fp r hl
    exact counted_step (slotMove_of_step hr hf (step_cases hst) hl) hi

/-- The future of a finished call takes no part in the rest of the run. -/
theorem Runs.finished_after {t : Moment} {c : CallId} (hc : t.post.calls.lookup c = some .finished)
    {newer : History} {u : World} (hr : Runs H (newer ++ t :: h) u) :
    (∀ v ∈ newer, v.event.call? ≠ some c) ∧ u.calls.lookup c = some .finished := by
  induction newer generalizing u with
  | nil =>
    cases hr with
    | step hr hst => exact ⟨by simp, hc⟩
  | cons v newer ih =>
    cases hr with
    | step hr hst =>
      obtain ⟨hnewer, hfin⟩ := ih hr
      obtain ⟨hv, hfin'⟩ := (step_cases hst).finished hfin
      refine ⟨fun v' hv' => ?_, hfin'⟩
      rcases List.mem_cons.1 hv' with rfl | hv'
      · exact hv
      · exact hnewer v' hv'

/-- No slot is ever lost: the counters are sound, and a call that finds an instance
which admits it and has fewer leases outstanding than slots attaches to it and
spawns nothing, then or later. -/
theorem no_slot_lost (hr : Runs H h w) (hf : FreshIds h) :
    (∀ fp r, w.state.fixtures.lookup fp = some r →
      (∃ i ∈ instances h, i.admitted.fp = fp ∧ r = { i.record with usedSlots := r.usedSlots }) ∧
      0 ≤ r.usedSlots.toInt ∧
      r.usedSlots.toInt ≤ max 1 r.sharing.maximumConcurrentConnections.toInt ∧
      r.usedSlots.toInt ≤ outstandingOn h r.plugin.child ∧
      (outstandingOn h r.plugin.child = 0 → r.usedSlots = 0) ∧
      (r.usedSlots < maxSlots r.sharing → (r.usedSlots + 1).toInt = r.usedSlots.toInt + 1) ∧
      (r.usedSlots - 1).toInt = r.usedSlots.toInt - 1) ∧
    (∀ c a r id, w.calls.lookup c = some (.running a .fingerprinted) →
      w.state.fixtures.lookup a.fp = some r →
      sharingAdmits r.sharing r.creatingClientId a.req.clientId = true →
      (outstandingOn h r.plugin.child : ℤ) < max 1 r.sharing.maximumConcurrentConnections.toInt →
      ∃ resp w', step H w (.reuse c id) = some (.granted id ⟨c, a, r.plugin.child, r.outputs⟩ resp, w') ∧
        w'.processes = w.processes ∧
        ∀ newer u, Runs H (newer ++
            ⟨w, .reuse c id, .granted id ⟨c, a, r.plugin.child, r.outputs⟩ resp, w'⟩ :: h) u →
          ∀ t ∈ newer, t.event.call? ≠ some c) := by
  constructor
  · intro fp r hl
    obtain ⟨h0, hmax, hout⟩ := hr.counted hf hl
    rw [maxSlots_toInt, max_comm] at hmax
    refine ⟨(Runs.provenance hr).stored fp r hl, h0, hmax, hout, ?_, succ_toInt, pred_toInt h0⟩
    intro hzero
    refine Int64.toInt_inj.1 ?_
    rw [Int64.toInt_zero]
    omega
  · intro c a r id hc hl hadmits hfree
    have hlt : r.usedSlots < maxSlots r.sharing := by
      have hout := (hr.counted hf hl).lent
      rw [Int64.lt_iff_toInt_lt, maxSlots_toInt, max_comm]
      omega
    have hst : Step H w (.reuse c id) _ _ := .attach hc (findReusable_eq_some.2 ⟨hl, hadmits, hlt⟩)
    refine ⟨_, _, step_of_step hst, rfl, fun newer u hu => ?_⟩
    refine (Runs.finished_after ?_ hu).1
    rw [setCall_calls, HashMap.lookup_insert, if_pos rfl]

/-- The one slot of a fixture comes back with its lease, so the next call attaches. -/
theorem no_slot_lost_sample :
    let run := sampleRun (sampleTake 0 "redis" "alice" "l0" "6379" ++
      [.releaseLease "l0", .takeLease 1 (sampleRequest "redis" "alice")])
    ∃ resp w', step sampleHost run.2 (.reuse 1 ⟨"l1"⟩) =
      some (.granted ⟨"l1"⟩ ⟨1, sampleAdmitted "redis" "alice", ⟨0⟩, sampleOutputs "6379"⟩ resp, w') := by
  intro run
  obtain ⟨-, attach⟩ := no_slot_lost (sampleRun_runs _) (show FreshIds run.1 by decide)
  obtain ⟨resp, w', hst, -⟩ := attach 1 (sampleAdmitted "redis" "alice")
    ⟨sampleOutputs "6379", ⟨some .clientRestricted, 1⟩, "alice", 0, ⟨⟨0⟩⟩⟩ ⟨"l1"⟩
    (by decide) (by decide) (by decide) (by decide)
  exact ⟨resp, w', hst⟩

/-! ### The slot limit -/

/-- The leases outstanding on an instance are at most the slots of the policy in its
description. -/
def WithinSlots (h : History) (i : Instance) : Prop :=
  (outstandingOn h i.child : ℤ) ≤ max 1 (recordedSharing i.admitted.desc).maximumConcurrentConnections.toInt

instance (h : History) (i : Instance) : Decidable (WithinSlots h i) := inferInstanceAs (Decidable (_ ≤ _))

/-- The release of a lease on a replaced instance takes a slot off the record that
replaced it, one that calls may attach to. -/
def StaleRelease (h : History) (t : Moment) : Prop :=
  ∃ leaseId g r, t.event = .releaseLease leaseId ∧ Outstanding h ⟨leaseId⟩ g ∧
    t.pre.state.fixtures.lookup g.admitted.fp = some r ∧ r.plugin.child ≠ g.child ∧
    0 < r.usedSlots ∧ r.sharing.useScope ≠ some .singleUse

def Event.released? : Event → Option LeaseId
  | .releaseLease leaseId => some ⟨leaseId⟩
  | _ => none

theorem released?_eq_some {leaseId : String} : e.released? = some ⟨leaseId⟩ ↔ e = .releaseLease leaseId := by
  cases e <;> simp [Event.released?]

instance (h : History) (t : Moment) : Decidable (StaleRelease h t) :=
  decidable_of_iff (∃ p ∈ Ledger.held (ledger h), t.event.released? = some p.1 ∧
      (t.pre.state.fixtures.lookup p.2.admitted.fp).any fun r =>
        r.plugin.child ≠ p.2.child ∧ 0 < r.usedSlots ∧ r.sharing.useScope ≠ some .singleUse) <| by
    simp only [Option.any_eq_true, decide_eq_true_eq]
    constructor
    · rintro ⟨⟨⟨leaseId⟩, g⟩, hg, hev, r, hr, hs⟩
      exact ⟨leaseId, g, r, released?_eq_some.1 hev, hg, hr, hs⟩
    · rintro ⟨leaseId, g, r, hev, hg, hr, hs⟩
      exact ⟨⟨⟨leaseId⟩, g⟩, hg, released?_eq_some.2 hev, r, hr, hs⟩

/-- Every lease outstanding on a stored instance is counted. A `single_use` record
has one, as nothing attaches to it. -/
structure Tight (h : History) (r : FixtureRecord) : Prop where
  single : r.sharing.useScope = some .singleUse → outstandingOn h r.plugin.child ≤ 1
  shared : r.sharing.useScope ≠ some .singleUse → (outstandingOn h r.plugin.child : ℤ) ≤ r.usedSlots.toInt

theorem tight_step {t : Moment} {fp : FixtureFingerprint} {r' : FixtureRecord} (hm : SlotMove h t fp r')
    (hc : ∀ fp r, t.pre.state.fixtures.lookup fp = some r → Counted h r)
    (hi : ∀ fp r, t.pre.state.fixtures.lookup fp = some r → Tight h r)
    (hs : ¬ StaleRelease h t) : Tight (t :: h) r' := by
  cases hm with
  | kept hr hn =>
    obtain ⟨hsingle, hshared⟩ := hi fp r' hr
    exact ⟨by rwa [hn], by rwa [hn]⟩
  | attached r hr hscope hfree he hn =>
    have hout := (hi fp r hr).shared hscope
    have hsucc := succ_toInt hfree
    subst he
    refine ⟨fun hsingle => absurd hsingle hscope, fun _ => ?_⟩
    simp only [hsucc, hn]
    omega
  | inserted hu hn =>
    constructor
    · exact fun _ => hn.le
    · intro _
      rw [hn, hu]
      decide
  | freed r hr he hn =>
    have hrel := release_toInt (hc fp r hr).nonneg
    subst he
    constructor
    · intro hsingle
      have hout := (hi fp r hr).single hsingle
      change outstandingOn _ r.plugin.child ≤ 1
      omega
    · intro hscope
      have hout := (hi fp r hr).shared hscope
      simp only [hrel]
      omega
  | stolen r leaseId g hr he hn hev hg hgfp hch =>
    have hcount := hc fp r hr
    have hrel := release_toInt hcount.nonneg
    subst he
    constructor
    · intro hsingle
      simp only [hn]
      exact (hi fp r hr).single hsingle
    · intro hscope
      have hout := (hi fp r hr).shared hscope
      -- the counter was already zero, so the clamp keeps it exact
      have hzero : ¬ 0 < r.usedSlots := fun hpos =>
        hs ⟨leaseId, g, r, hev, hg, hgfp ▸ hr, hch.symm, hpos, hscope⟩
      rw [Int64.lt_iff_toInt_lt, Int64.toInt_zero] at hzero
      simp only [hrel, hn]
      omega

/-- Leases are added only to instances that are stored. -/
theorem outstandingOn_le (hp : Provenance h w) (hst : Step H w e o w') {child : Child}
    (hn : ∀ fp, w'.owns (.record fp) ≠ some child) :
    outstandingOn (⟨w, e, o, w'⟩ :: h) child ≤ outstandingOn h child := by
  cases ho : o.entry? with
  | none => exact (outstandingOn_quiet ho child).le
  | some entry =>
    cases entry with
    | release id =>
      rw [outstandingOn, ledger_entry ho]
      exact Ledger.load_release_le ..
    | grant id g =>
      have hother : g.child ≠ child := fun hch => hn _ (hch ▸ (grant_backed hp hst ho).2)
      rw [outstandingOn_grant ho, if_neg hother, Nat.add_zero]

theorem unborn_outstandingOn (hl : Lent h w) {child : Child} (hn : ∀ i ∈ instances h, i.child ≠ child) :
    outstandingOn h child = 0 := by
  refine outstandingOn_eq_zero fun id g hg hch => ?_
  obtain ⟨i, hi, hb⟩ := hl.backed id g hg
  exact hn i hi (hb.child.trans hch)

/-- A counted and tight record keeps its instance within its slots. -/
theorem Tight.withinSlots {r : FixtureRecord} (ht : Tight h r) (hc : Counted h r) {i : Instance}
    (hi : r = { i.record with usedSlots := r.usedSlots }) : WithinSlots h i := by
  have hchild : r.plugin.child = i.child := by rw [hi]; rfl
  have hsharing : r.sharing = recordedSharing i.admitted.desc := by rw [hi]; rfl
  have hlimit := hc.limit
  rw [maxSlots_toInt, hsharing, max_comm] at hlimit
  unfold WithinSlots
  rw [← hchild]
  by_cases hscope : r.sharing.useScope = some .singleUse
  · have := ht.single hscope
    omega
  · have := ht.shared hscope
    omega

structure SlotsKept (h : History) (w : World) : Prop where
  within : ∀ i ∈ instances h, WithinSlots h i
  tight : ∀ fp r, w.state.fixtures.lookup fp = some r → Tight h r

theorem slotsKept_start (files : FileSystem) : SlotsKept [] (World.start files) where
  within i hi := by cases hi
  tight fp r hl := by simp [World.start] at hl

theorem slotsKept_step (hr : Runs H h w) (hf : FreshIds (⟨w, e, o, w'⟩ :: h)) (hk : SlotsKept h w)
    (hst : Step H w e o w') (hs : ¬ StaleRelease h ⟨w, e, o, w'⟩) : SlotsKept (⟨w, e, o, w'⟩ :: h) w' := by
  have hr' : Runs H (⟨w, e, o, w'⟩ :: h) w' := .step hr (step_of_step hst)
  have hcount : ∀ fp r, w.state.fixtures.lookup fp = some r → Counted h r :=
    fun fp r hl => hr.counted (freshIds_hereditary _ _ hf) hl
  have htight : ∀ fp r, w'.state.fixtures.lookup fp = some r → Tight (⟨w, e, o, w'⟩ :: h) r :=
    fun fp r hl => tight_step (slotMove_of_step hr hf hst hl) hcount hk.tight hs
  refine ⟨fun i hi => ?_, htight⟩
  have hp' := Runs.provenance hr'
  by_cases hstored : ∃ fp r, w'.state.fixtures.lookup fp = some r ∧ r.plugin.child = i.child
  · obtain ⟨fp, r, hl, hchild⟩ := hstored
    obtain ⟨j, hj, -, hrec⟩ := hp'.stored fp r hl
    have hji : j.child = i.child := by
      rw [← hchild, hrec]
      rfl
    obtain rfl := hp'.eq_of_child hj hi hji
    exact (htight fp r hl).withinSlots (hr'.counted hf hl) hrec
  · -- nothing is granted on an instance that is not stored
    have hle : outstandingOn (⟨w, e, o, w'⟩ :: h) i.child ≤ outstandingOn h i.child := by
      refine outstandingOn_le (Runs.provenance hr) hst fun fp howns => ?_
      obtain ⟨r, hl, hc⟩ := Option.map_eq_some_iff.1 howns
      exact hstored ⟨fp, r, hl, hc⟩
    by_cases hold : i ∈ instances h
    · have := hk.within i hold
      unfold WithinSlots at this ⊢
      omega
    · have hzero : outstandingOn h i.child = 0 := by
        refine unborn_outstandingOn (Runs.lent hr) fun j hj hc => ?_
        obtain rfl := hp'.eq_of_child (mem_instances_cons hj _) hi hc
        exact hold hj
      unfold WithinSlots
      omega

/-- In runs without stale releases no instance ever has more leases outstanding than
slots. -/
theorem slot_limit_kept (hr : Runs H h w) (hf : FreshIds h)
    (hs : Along (fun h t => ¬ StaleRelease h t) h) :
    Throughout (fun h _ => ∀ i ∈ instances h, WithinSlots h i) h w := by
  have hA := freshIds_hereditary.and (hereditary_along fun h t => ¬ StaleRelease h t)
  refine Machine.Run.throughout hA (fun h w hr ha => ?_) hr ⟨hf, hs⟩
  have inv : SlotsKept h w := by
    refine Machine.Run.invariant hA ?_ ?_ hr ha
    · rintro _ ⟨files, rfl⟩
      exact slotsKept_start files
    · intro h w e o w' hr ha hk hst
      exact slotsKept_step hr ha.1 hk (step_cases hst) ha.2.1
  exact inv.within

/-- A fixture's one slot is released and taken again, while another fixture is leased. -/
theorem slot_limit_kept_sample :
    let run := sampleRun (sampleTake 0 "redis" "alice" "l0" "6379" ++ sampleTake 1 "mysql" "bob" "l1" "3306" ++
      .releaseLease "l0" :: sampleCheck 2 "redis" "alice" "l2")
    Throughout (fun h _ => ∀ i ∈ instances h, WithinSlots h i) run.1 run.2 := by
  intro run
  exact slot_limit_kept (sampleRun_runs _) (show FreshIds run.1 by decide) (by decide)

/-- One client's second lease replaces its fixture; releasing the first one then frees
a slot of the second, which a third call takes. -/
theorem slot_limit_exceeded : ¬ ∀ (H : Host) (h : History) (w : World), Runs H h w → FreshIds h →
    ∀ i ∈ instances h, WithinSlots h i := by
  intro hall
  let run := sampleRun (sampleTake 0 "redis" "alice" "l0" "6379" ++ sampleTake 1 "redis" "alice" "l1" "6380" ++
    .releaseLease "l0" :: sampleCheck 2 "redis" "alice" "l2")
  exact absurd (hall sampleHost run.1 run.2 (sampleRun_runs _) (by decide)) (by decide)

end RulesSystemtest
