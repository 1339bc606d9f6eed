import RulesSystemtest.Library.Idempotent
import RulesSystemtest.Coordinator.Slots
import Mathlib.Tactic.Tauto

/-! Releases in any order, any number of times. A release that finds its lease takes
one step off the counter of a record, the same step whichever lease it is, and finds
nothing the second time. So releases commute and absorb their repetitions, clamp
included. -/

namespace RulesSystemtest

open Library

variable {H : Host} {h : History} {w w' : World} {e : Event} {o : Obs} {st : State}

/-! ### One release after another -/

theorem State.ext_lookup {st st' : State} (hf : ∀ fp, st.fixtures.lookup fp = st'.fixtures.lookup fp)
    (hl : ∀ id, st.leases.lookup id = st'.leases.lookup id) : st = st' := by
  obtain ⟨fixtures, leases⟩ := st
  obtain ⟨fixtures', leases'⟩ := st'
  obtain rfl := Finmap.ext_lookup hf
  obtain rfl := Finmap.ext_lookup hl
  rfl

/-- A lease that is unknown, or was released before, is ignored. -/
theorem releaseLease_unknown {leaseId : String} (h : st.leases.lookup ⟨leaseId⟩ = none) :
    releaseLease st leaseId = st := by
  simp [releaseLease, h]

theorem releaseLease_idem (st : State) (leaseId : String) :
    releaseLease (releaseLease st leaseId) leaseId = releaseLease st leaseId := by
  refine releaseLease_unknown ?_
  rw [release_leases, if_pos rfl]

theorem releaseLease_comm (st : State) (a b : String) :
    releaseLease (releaseLease st a) b = releaseLease (releaseLease st b) a := by
  by_cases hab : a = b
  · rw [hab]
  have hab' : (⟨a⟩ : LeaseId) ≠ ⟨b⟩ := fun h => hab (congrArg LeaseId.value h)
  refine State.ext_lookup (fun fp => ?_) fun id => ?_
  · simp only [release_fixtures, release_leases, hab', hab'.symm, if_false]
    split <;> split <;> rfl
  · simp only [release_leases]
    split <;> split <;> rfl

instance : RightCommutative releaseLease := ⟨releaseLease_comm⟩

/-! ### A list of requests -/

/-- One request as a build with overflow checks serves it: it panics if the counter
cannot be decremented. -/
def releaseChecked (st : State) (leaseId : String) : Option State :=
  match (st.leases.lookup ⟨leaseId⟩).bind fun lease => st.fixtures.lookup lease.fingerprint with
  | some record => if record.usedSlots = Int64.minValue then none else some (releaseLease st leaseId)
  | none => some (releaseLease st leaseId)

/-- All requests return success, and this is what they leave. -/
def serveReleases (st : State) (leaseIds : List String) : Option State := leaseIds.foldlM releaseChecked st

/-- No counter is below zero. -/
def State.Counts (st : State) : Prop := ∀ fp r, st.fixtures.lookup fp = some r → 0 ≤ r.usedSlots.toInt

theorem counts_release (hc : st.Counts) (leaseId : String) : (releaseLease st leaseId).Counts := by
  intro fp r hr
  rw [release_fixtures] at hr
  split at hr
  · obtain ⟨r₀, hr₀, rfl⟩ := Option.map_eq_some_iff.1 hr
    simp only [release_toInt (hc fp r₀ hr₀)]
    exact le_max_right ..
  · exact hc fp r hr

theorem counts_step (hc : w.state.Counts) (hst : Step H w e o w') : w'.state.Counts := by
  cases step_effect hst with
  | quiet hs ho => rwa [hs]
  | attach c a record id hcall hf hs ho =>
    obtain ⟨hrec, -, hlt⟩ := findReusable_eq_some.1 hf
    intro fp r hr
    rw [hs, attach_fixtures] at hr
    split at hr
    · obtain rfl := Option.some.inj hr
      have h0 := hc _ _ hrec
      simp only [succ_toInt hlt]
      omega
    · exact hc fp r hr
  | insert c a plugin result id hcall hs ho =>
    intro fp r hr
    rw [hs, insert_fixtures] at hr
    split at hr
    · obtain rfl := Option.some.inj hr
      simp [newRecord]
    · exact hc fp r hr
  | release leaseId hs ho =>
    rw [hs]
    exact counts_release hc leaseId

theorem Runs.counts (hr : Runs H h w) : w.state.Counts := by
  refine Machine.Run.invariant hereditary_true (I := fun _ w => w.state.Counts) ?_ ?_ hr trivial
  · rintro _ ⟨files, rfl⟩ fp r hl
    simp [World.start] at hl
  · intro h w e o w' _ _ hc hst
    exact counts_step hc (step_cases hst)

theorem releaseChecked_eq (hc : st.Counts) (leaseId : String) :
    releaseChecked st leaseId = some (releaseLease st leaseId) := by
  unfold releaseChecked
  split
  · next record hrec =>
    obtain ⟨lease, -, hr⟩ := Option.bind_eq_some_iff.1 hrec
    refine if_neg fun hmin => ?_
    have h0 := hc _ _ hr
    rw [hmin] at h0
    exact absurd h0 (by decide)
  · rfl

theorem serveReleases_eq (hc : st.Counts) (leaseIds : List String) :
    serveReleases st leaseIds = some (leaseIds.foldl releaseLease st) := by
  induction leaseIds generalizing st with
  | nil => rfl
  | cons leaseId leaseIds ih =>
    rw [serveReleases, List.foldlM_cons, releaseChecked_eq hc]
    exact ih (counts_release hc leaseId)

/-- The daemon serves a list of requests by that many of its steps. -/
theorem replay_releases (hw : History × World) (leaseIds : List String) :
    ((daemon H).replay hw (leaseIds.map .releaseLease)).2 =
        { hw.2 with state := leaseIds.foldl releaseLease hw.2.state } ∧
      (((daemon H).replay hw (leaseIds.map .releaseLease)).1.map (·.obs)) =
        (leaseIds.map .released).reverse ++ hw.1.map (·.obs) := by
  induction leaseIds generalizing hw with
  | nil => exact ⟨rfl, rfl⟩
  | cons leaseId leaseIds ih =>
    have hst : (daemon H).step hw.2 (.releaseLease leaseId) =
        some (.released leaseId, { hw.2 with state := releaseLease hw.2.state leaseId }) := rfl
    simp only [List.map_cons, Machine.replay, hst]
    obtain ⟨hworld, hobs⟩ := ih (⟨hw.2, .releaseLease leaseId, .released leaseId,
      { hw.2 with state := releaseLease hw.2.state leaseId }⟩ :: hw.1,
      { hw.2 with state := releaseLease hw.2.state leaseId })
    refine ⟨hworld, ?_⟩
    rw [hobs]
    simp

/-- Releases are order-independent and idempotent: in every reachable state, every
request of a list succeeds, and the fixtures and leases that the list leaves depend
only on which ids it contains. -/
theorem releases_order_independent (hr : Runs H h w) {leaseIds leaseIds' : List String}
    (hset : ∀ leaseId, leaseId ∈ leaseIds ↔ leaseId ∈ leaseIds') :
    ∃ st, serveReleases w.state leaseIds = some st ∧ serveReleases w.state leaseIds' = some st ∧
      ((daemon H).replay (h, w) (leaseIds.map .releaseLease)).2 = { w with state := st } ∧
      ((daemon H).replay (h, w) (leaseIds'.map .releaseLease)).2 = { w with state := st } := by
  have hsame := foldl_eq_of_mem_iff releaseLease_idem hset w.state
  refine ⟨leaseIds.foldl releaseLease w.state, serveReleases_eq hr.counts _, ?_,
    (replay_releases (h, w) leaseIds).1, ?_⟩
  · rw [hsame]
    exact serveReleases_eq hr.counts _
  · rw [hsame]
    exact (replay_releases (h, w) leaseIds').1

/-- Two leases of one fingerprint, the older one on an instance that was replaced. -/
theorem releases_order_independent_sample :
    let run := sampleRun (sampleTake 0 "redis" "alice" "l0" "6379" ++ sampleTake 1 "redis" "alice" "l1" "6380")
    ∃ st, serveReleases run.2.state ["l1", "l0", "l1", "l9"] = some st ∧
      serveReleases run.2.state ["l0", "l9", "l1"] = some st := by
  intro run
  have hset : ∀ leaseId, leaseId ∈ ["l1", "l0", "l1", "l9"] ↔ leaseId ∈ ["l0", "l9", "l1"] := by
    intro leaseId
    simp only [List.mem_cons, List.not_mem_nil, or_false]
    tauto
  obtain ⟨st, hfirst, hsecond, -⟩ := releases_order_independent (sampleRun_runs _) hset
  exact ⟨st, hfirst, hsecond⟩

end RulesSystemtest
