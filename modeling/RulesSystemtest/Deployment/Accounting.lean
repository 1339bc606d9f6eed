import RulesSystemtest.Coordinator.Slots
import RulesSystemtest.Deployment.Requests

/-! The accounts of the leases. Whoever releases a lease holds it, so the coordinator
finds every lease that it is told to release, and is told so once. As long as nothing
is lost, every lease that is outstanding is in some place, so when all is quiet every
lease was released and every slot is free. -/

namespace RulesSystemtest.Deployment

open Library Runner

variable {H : Host} {D D' : State} {e : Event} {o : Obs} {h : History}

/-! ### Releases -/

/-- A lease that is released now was in the request that arrives. -/
theorem outstanding_of_released (hp : Placed h D) (hm : LeaseMove D e o D') {id : LeaseId}
    (ho : o.entry? = some (.release id)) : ∃ g, Outstanding (served h) id g := by
  cases hm with
  | @released c id' hl hc _ =>
    obtain rfl : id' = id := by simpa [hl] using ho
    exact hp.outstanding _ _ hc
  | kept hl | granted hl | passed _ _ _ hl | lost hl =>
    rw [hl] at ho
    cases ho

theorem proper_step (hp : Placed h D) (hm : LeaseMove D e o D') (hl : Ledger.Proper (ledger (served h))) :
    Ledger.Proper (ledger (served (⟨D, e, o, D'⟩ :: h))) := by
  cases ho : o.entry? with
  | none => rwa [ledger_served_quiet ho]
  | some x =>
    rw [ledger_served_entry ho]
    cases x with
    | grant id g => exact hl
    | release id => exact ⟨outstanding_of_released hp hm ho, hl⟩

theorem Runs.proper (hr : Runs H h D) (hf : FreshIds (served h)) : Ledger.Proper (ledger (served h)) := by
  refine Machine.Run.invariant (served_hereditary freshIds_hereditary)
    (I := fun h _ => Ledger.Proper (ledger (served h))) ?_ ?_ hr hf
  · exact fun _ _ => trivial
  · intro h D e o D' hr hf hl hst
    exact proper_step (Runs.placed hr (served_hereditary freshIds_hereditary _ _ hf)) (leaseMove_of_step hr (step_cases hst)) hl

/-- If the coordinator is told to release a lease, it is in the lease table. -/
def ReleasesKnown (t : Moment) : Prop :=
  ∀ leaseID, t.obs = .moved (.releaseLease leaseID) (.released leaseID) →
    ∃ lease, t.pre.coordinator.state.leases.lookup ⟨leaseID⟩ = some lease

theorem releasesKnown_step (hr : Runs H h D) (hf : FreshIds (served h)) (hst : Step H D e o D') :
    ReleasesKnown ⟨D, e, o, D'⟩ := by
  rintro leaseID rfl
  obtain ⟨g, hg⟩ := outstanding_of_released (hr.placed hf) (leaseMove_of_step hr hst) rfl
  exact ⟨_, (hr.coordinator.leaseTable hf).lookup hg⟩

/-- The leases that the coordinator granted are those released and those outstanding,
each of them once, and no release arrives for a lease that it does not know. -/
theorem leases_released_once (hr : Runs H h D) (hf : FreshIds (served h)) :
    (Ledger.issued (ledger (served h))).Perm
      (Ledger.released (ledger (served h)) ++ (Ledger.held (ledger (served h))).map Prod.fst) ∧
    (Ledger.released (ledger (served h))).Nodup ∧ Along (fun _ t => ReleasesKnown t) h := by
  refine ⟨Ledger.issued_perm hf (hr.proper hf), Ledger.released_nodup hf (hr.proper hf), ?_⟩
  refine Machine.Run.along (served_hereditary freshIds_hereditary) ?_ hr hf
  intro h D e o D' hr hf hst
  exact releasesKnown_step hr (served_hereditary freshIds_hereditary _ _ hf) (step_cases hst)

set_option maxRecDepth 4000 in
/-- Two tests of one fixture, one after the other. -/
theorem leases_released_once_sample :
    let run := sampleRun (sampleTest 0 0 "redis" "alice" "l0" "6379" ++ sampleEnd 0 1 ++
      sampleTest 1 2 "redis" "alice" "l1" "6380" ++ sampleEnd 1 3)
    Ledger.released (ledger (served run.1)) = [⟨"l1"⟩, ⟨"l0"⟩] ∧ Along (fun _ t => ReleasesKnown t) run.1 := by
  intro run
  obtain ⟨-, -, known⟩ := leases_released_once (sampleRun_runs _) (show FreshIds (served run.1) by decide)
  exact ⟨by decide, known⟩

/-! ### Leases in runs without losses -/

theorem tracked_step (hm : LeaseMove D e o D') (he : e.loses = false)
    (ht : ∀ id g, Outstanding (served h) id g → ∃ p, D.owns p = some id) (id : LeaseId) (g : Grant)
    (hg : Outstanding (served (⟨D, e, o, D'⟩ :: h)) id g) : ∃ p, D'.owns p = some id := by
  cases hm with
  | kept hl ho =>
    rw [ho]
    exact ht id g ((outstanding_served_quiet hl).1 hg)
  | @granted c id' g' hl hc ho =>
    rcases (outstanding_served_grant hl).1 hg with ⟨rfl, -⟩ | hg
    · exact ⟨.rpc c, by rw [ho, Function.update_self]⟩
    · obtain ⟨p, hp⟩ := ht id g hg
      have hne : p ≠ .rpc c := by
        rintro rfl
        cases hc.symm.trans hp
      exact ⟨p, by rwa [ho, Function.update_of_ne hne]⟩
  | passed q q' id' hl hq hq' ho =>
    obtain ⟨p, hp⟩ := ht id g ((outstanding_served_quiet hl).1 hg)
    by_cases hpq : p = q
    · -- the lease that is passed on
      obtain rfl := hpq
      obtain rfl : id' = id := Option.some.inj (hq.symm.trans hp)
      exact ⟨q', by rw [ho, Function.update_self]⟩
    · have hne : p ≠ q' := by
        rintro rfl
        cases hq'.symm.trans hp
      exact ⟨p, by rwa [ho, Function.update_of_ne hne, Function.update_of_ne hpq]⟩
  | @released c id' hl hc ho =>
    obtain ⟨hg, hid⟩ := (outstanding_served_release hl).1 hg
    obtain ⟨p, hp⟩ := ht id g hg
    have hne : p ≠ .rpc c := by
      rintro rfl
      exact hid (Option.some.inj (hp.symm.trans hc))
    exact ⟨p, by rwa [ho, Function.update_of_ne hne]⟩
  | lost _ hloses _ =>
    rw [he] at hloses
    cases hloses

/-- No runner was killed and no message got lost. -/
def Lossless (h : History) : Prop := Along (fun _ t => t.event.loses = false) h

instance (h : History) : Decidable (Lossless h) := inferInstanceAs (Decidable (Along _ h))

theorem Runs.tracked (hr : Runs H h D) (hl : Lossless h) {id : LeaseId} {g : Grant} (hg : Outstanding (served h) id g) :
    ∃ p, D.owns p = some id := by
  refine Machine.Run.invariant (hereditary_along _) (I := fun h D => ∀ id g, Outstanding (served h) id g → ∃ p,
    D.owns p = some id) ?_ ?_ hr hl id g hg
  · intro D _ id g hg
    cases hg
  · exact fun h D e o D' hr hl ht hst => tracked_step (leaseMove_of_step hr (step_cases hst)) hl.1 ht

def Rpc.isDone : Rpc → Bool
  | .done => true
  | _ => false

def isReturned : Stage → Bool
  | .returned _ => true
  | _ => false

/-- Every call is over, and every runner returned. -/
structure Quiet (D : State) : Prop where
  calls : ∀ c rpc, D.rpcs.lookup c = some rpc → rpc.isDone = true
  runners : ∀ r m, D.runners.lookup r = some m → isReturned m.locals.stage = true

instance (D : State) : Decidable (Quiet D) :=
  decidable_of_iff ((∀ x ∈ D.rpcs.entries, Rpc.isDone x.2 = true) ∧
      ∀ x ∈ D.runners.entries, isReturned (Member.locals x.2).stage = true) <| by
    constructor
    · rintro ⟨hcalls, hrunners⟩
      exact ⟨fun c rpc hc => hcalls ⟨c, rpc⟩ (Finmap.mem_lookup_iff.1 hc),
        fun r m hm => hrunners ⟨r, m⟩ (Finmap.mem_lookup_iff.1 hm)⟩
    · rintro ⟨hcalls, hrunners⟩
      exact ⟨fun x hx => hcalls x.1 x.2 (Finmap.mem_lookup_iff.2 hx),
        fun x hx => hrunners x.1 x.2 (Finmap.mem_lookup_iff.2 hx)⟩

theorem eq_returned {stage : Stage} (h : isReturned stage = true) : ∃ result, stage = .returned result := by
  cases stage with
  | returned result => exact ⟨result, rfl⟩
  | _ => cases h

theorem Quiet.owns (hq : Quiet D) (hr : Runs H h D) (p : Place) : D.owns p = none := by
  cases p with
  | rpc c =>
    cases hc : D.rpcs.lookup c with
    | none => simp [State.owns, hc]
    | some rpc =>
      have hdone := hq.calls c rpc hc
      rw [owns_rpc hc]
      cases rpc with
      | done => rfl
      | _ => cases hdone
  | lease r n =>
    cases hm : D.runners.lookup r with
    | none => simp [State.owns, hm]
    | some m =>
      obtain ⟨result, hs⟩ := eq_returned (hq.runners r m hm)
      obtain ⟨h', hr', -⟩ := hr.ran hm
      rw [owns_lease hm, leases_of_returned hr' hs]
      rfl

/-- Once all is quiet, no lease is outstanding, unless something got lost. -/
theorem Quiet.not_outstanding (hq : Quiet D) (hr : Runs H h D) (hl : Lossless h) {id : LeaseId} {g : Grant} :
    ¬ Outstanding (served h) id g := by
  intro hg
  obtain ⟨p, hp⟩ := hr.tracked hl hg
  rw [hq.owns hr p] at hp
  cases hp

theorem Quiet.leases_none (hq : Quiet D) (hr : Runs H h D) (hf : FreshIds (served h)) (hl : Lossless h) (id : LeaseId) :
    D.coordinator.state.leases.lookup id = none := by
  cases hid : D.coordinator.state.leases.lookup id with
  | none => rfl
  | some lease =>
    obtain ⟨g, hg, -⟩ := ((hr.coordinator.leaseTable hf).leases id lease).1 hid
    exact absurd hg (hq.not_outstanding hr hl)

/-- In a run without losses the leases outstanding are those in some place, and once all
is quiet every lease was released and every slot is free. -/
theorem nothing_left_over (hr : Runs H h D) (hf : FreshIds (served h)) (hl : Lossless h) :
    (∀ id, (∃ g, Outstanding (served h) id g) ↔ ∃ p, D.owns p = some id) ∧
    (Quiet D → (Ledger.issued (ledger (served h))).Perm (Ledger.released (ledger (served h))) ∧
      (∀ id, D.coordinator.state.leases.lookup id = none) ∧
      ∀ fp r, D.coordinator.state.fixtures.lookup fp = some r → r.usedSlots = 0) := by
  have places : ∀ id, (∃ g, Outstanding (served h) id g) ↔ ∃ p, D.owns p = some id := by
    intro id
    constructor
    · rintro ⟨g, hg⟩
      exact hr.tracked hl hg
    · rintro ⟨p, hp⟩
      exact (hr.placed hf).outstanding p id hp
  refine ⟨places, fun hq => ⟨?_, hq.leases_none hr hf hl, ?_⟩⟩
  · have hheld : Ledger.held (ledger (served h)) = [] :=
      List.eq_nil_iff_forall_not_mem.2 fun x hx => hq.not_outstanding hr hl hx
    have hperm := Ledger.issued_perm hf (hr.proper hf)
    rwa [hheld, List.map_nil, List.append_nil] at hperm
  · intro fp r hfp
    have hcount := hr.coordinator.counted hf hfp
    have hzero : outstandingOn (served h) r.plugin.child = 0 :=
      outstandingOn_eq_zero fun id g hg => absurd hg (hq.not_outstanding hr hl)
    have hlow := hcount.nonneg
    have hhigh := hcount.lent
    rw [hzero] at hhigh
    rw [← Int64.toInt_inj]
    exact le_antisymm hhigh hlow

set_option maxRecDepth 4000 in
/-- Once both tests are done, no lease is left. -/
theorem nothing_left_over_sample :
    let run := sampleRun (sampleTest 0 0 "redis" "alice" "l0" "6379" ++ sampleEnd 0 1 ++
      sampleTest 1 2 "redis" "alice" "l1" "6380" ++ sampleEnd 1 3)
    run.1.length = 25 ∧ ∀ id, run.2.coordinator.state.leases.lookup id = none := by
  intro run
  obtain ⟨-, hquiet⟩ := nothing_left_over (sampleRun_runs _) (show FreshIds (served run.1) by decide)
    (show Lossless run.1 by decide)
  exact ⟨by decide, (hquiet (by decide)).2.1⟩

end RulesSystemtest.Deployment
