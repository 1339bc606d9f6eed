import RulesSystemtest.Runner.Run

/-! What the coordinator hands out to the runner and what the runner gives back. The
deferred function releases exactly the leases that were acquired, once for each. A lease
that was handed out as pending and then not decided in favour is forgotten. -/

namespace RulesSystemtest.Runner

variable {W : World} {S : Setup} {path : String}

/-! ### The answers -/

/-- A lease that is handed out, with its outputs if it reaches the runner. -/
structure Handout where
  id : String
  outputs : Option (BTreeMap Value)

/-- The id that a reply to `TakeLease` hands out. -/
def grantedId (resp : TakeLeaseResponse) : Option String :=
  if resp.status = pending ∨ resp.status = succeeded then some resp.leaseId else none

def handout (answers : LeaseAnswers) : Option Handout :=
  match answers.takeLease with
  | .error _ => none
  | .ok resp => (grantedId resp).map fun id =>
    ⟨id, ((decision resp answers.polls).filter (·.status = succeeded)).map (·.outputs)⟩

/-- The leases handed out to a list of fixtures, up to the first fixture that fails. -/
def handouts (W : World) : ℕ → List ResolvedFixture → List Handout
  | _, [] => []
  | n, fx :: fixtures =>
    match handout (W.lease n) with
    | none => []
    | some h =>
      match h.outputs.map fun outputs => portEnvFromOutputs W.unmarshalPorts fx.name ((W.lease n).range.list outputs) with
      | some (.ok _) => h :: handouts W (n + 1) fixtures
      | _ => [h]

def acquiredIds (handouts : List Handout) : List String :=
  (handouts.filter (·.outputs.isSome)).map (·.id)

/-! ### The trace -/

def handedOutId : Event → Option String
  | .takeLeaseReply _ resp => grantedId resp
  | _ => none

def releasedId : Event → Option String
  | .releaseLease lease => some lease.id
  | _ => none

theorem releasedId_of_leaseEvent {e : Event} (h : IsLeaseEvent e) : releasedId e = none := by
  cases e <;> trivial

theorem releasedId_of_testEvent {e : Event} (h : IsTestEvent e) : releasedId e = none := by
  cases e <;> trivial

theorem handedOutId_of_testEvent {e : Event} (h : IsTestEvent e) : handedOutId e = none := by
  cases e <;> trivial

theorem handedOutId_of_releaseEvent {e : Event} (h : IsReleaseEvent e) : handedOutId e = none := by
  cases e <;> trivial

theorem handedOutId_of_pollEvent {n : ℕ} {e : Event} (h : IsPollEvent n e) : handedOutId e = none := by
  cases e <;> trivial

theorem releasedId_releaseAll (leases : List ActiveLease) :
    (releaseAll W leases).filterMap releasedId = leases.map (·.id) := by
  induction leases with
  | nil => rfl
  | cons l leases ih =>
    rw [releaseAll, List.flatMap_cons, List.filterMap_append, List.map_cons]
    exact congrArg (l.id :: ·) ih

theorem handedOutId_takeLeaseTrace {n : ℕ} {fx : ResolvedFixture} {clientID : String}
    {ttlSeconds startupTimeout : Int64} {answers : LeaseAnswers} {resp : TakeLeaseResponse} :
    (takeLeaseTrace n fx clientID ttlSeconds startupTimeout answers resp).filterMap handedOutId =
      (grantedId resp).toList := by
  have hpolls : (awaitLease n startupTimeout resp answers.polls).trace.filterMap handedOutId = [] :=
    List.filterMap_eq_nil_iff.2 fun e he => handedOutId_of_pollEvent (awaitLease_polling e he)
  have hcall : (takeLeaseCall n fx clientID ttlSeconds answers).filterMap handedOutId = [] := rfl
  have hreply : handedOutId (.takeLeaseReply n resp) = grantedId resp := rfl
  rw [takeLeaseTrace, List.filterMap_append, hcall, List.nil_append, List.filterMap_cons, hreply, hpolls]
  cases grantedId resp <;> rfl

/-- A lease is decided in favour only if it was handed out. -/
theorem handout_of_granted {answers : LeaseAnswers} {resp : TakeLeaseResponse} {final : StatusResponse}
    (htake : answers.takeLease = .ok resp) (hdecision : decision resp answers.polls = some final)
    (hsucceeded : final.status = succeeded) :
    handout answers = some ⟨resp.leaseId, some final.outputs⟩ ∧ grantedId resp = some resp.leaseId := by
  have hgranted : grantedId resp = some resp.leaseId := by
    refine if_pos ?_
    by_cases hp : resp.status = pending
    · exact .inl hp
    · rw [decision, if_neg hp] at hdecision
      cases hdecision
      exact .inr hsucceeded
  refine ⟨?_, hgranted⟩
  simp [handout, htake, hgranted, hdecision, Option.filter, hsucceeded]

theorem handout_of_refused {answers : LeaseAnswers} {resp : TakeLeaseResponse}
    (htake : answers.takeLease = .ok resp)
    (hrefused : ∀ final, decision resp answers.polls = some final → final.status ≠ succeeded) :
    handout answers = (grantedId resp).map fun id => ⟨id, none⟩ := by
  have hfilter : (decision resp answers.polls).filter (·.status = succeeded) = none := by
    rw [Option.filter_eq_none_iff]
    simpa using hrefused
  simp [handout, htake, hfilter]

/-- The loop over the fixtures acquires what the answers hand out. -/
theorem leaseFixtures_handouts (n : ℕ) (fixtures : List ResolvedFixture) (leases : List ActiveLease) (env : Env) :
    (leaseFixtures W S n fixtures leases env).leases.map (·.id) =
        leases.map (·.id) ++ acquiredIds (handouts W n fixtures) ∧
      (leaseFixtures W S n fixtures leases env).trace.filterMap handedOutId = (handouts W n fixtures).map (·.id) := by
  induction fixtures generalizing n leases env with
  | nil => simp [leaseFixtures, handouts, acquiredIds]
  | cons fx fixtures ih =>
    rcases acquireLease_cases n fx S.clientID S.cfg.leaseTTLSeconds (startupTimeout S) (W.lease n) with
      ⟨e, e', htake, heq⟩ | ⟨resp, e, htake, hrefused, heq⟩ | ⟨resp, final, htake, hdecision, hsucceeded, heq⟩
    · have hhandout : handout (W.lease n) = none := by rw [handout, htake]
      simp [leaseFixtures, heq, handouts, hhandout, acquiredIds, takeLeaseCall, handedOutId]
    · have hhandout := handout_of_refused htake hrefused
      cases hid : grantedId resp with
      | none => simp [leaseFixtures, heq, handouts, hhandout, hid, acquiredIds, handedOutId_takeLeaseTrace]
      | some id => simp [leaseFixtures, heq, handouts, hhandout, hid, acquiredIds, handedOutId_takeLeaseTrace]
    · obtain ⟨hhandout, hid⟩ := handout_of_granted htake hdecision hsucceeded
      cases hports : portEnvFromOutputs W.unmarshalPorts fx.name ((W.lease n).range.list final.outputs) with
      | error e =>
        simp [leaseFixtures, heq, handouts, hhandout, hid, hports, acquiredIds, handedOutId_takeLeaseTrace, handedOutId]
      | ok portEnv =>
        obtain ⟨hleases, hhanded⟩ := ih (n + 1) (leases ++ [⟨resp.leaseId, final.outputs, n⟩]) (portEnv ∪ env)
        simp [leaseFixtures, heq, handouts, hhandout, hid, hports, acquiredIds, handedOutId_takeLeaseTrace, hleases]
        exact hhanded

/-! ### The whole run -/

theorem execute_handouts (hsetup : setup W path = .ok S) :
    (execute W path).trace.filterMap releasedId = acquiredIds (handouts W 0 S.fixtures) ∧
      (execute W path).trace.filterMap handedOutId = (handouts W 0 S.fixtures).map (·.id) := by
  obtain ⟨hleases, hhanded⟩ := leaseFixtures_handouts (W := W) (S := S) 0 S.fixtures [] ∅
  have hnone : (leasing W S).trace.filterMap releasedId = [] :=
    List.filterMap_eq_nil_iff.2 fun e he => releasedId_of_leaseEvent (isLeaseEvent_leaseFixtures _ _ _ _ e he)
  have htests := isTestEvent_runTest (W := W) (S := S) (leasing W S).result
  rw [execute_trace hsetup]
  simp only [List.filterMap_append]
  rw [hnone, List.filterMap_eq_nil_iff.2 fun e he => releasedId_of_testEvent (htests e he),
    List.filterMap_eq_nil_iff.2 fun e he => handedOutId_of_testEvent (htests e he), releasedId_releaseAll,
    List.filterMap_eq_nil_iff.2 fun e he => handedOutId_of_releaseEvent (isReleaseEvent_releaseAll _ e he)]
  exact ⟨hleases, by rw [List.append_nil, List.append_nil]; exact hhanded⟩

/-- Counting says that one list has no duplicates and the same members as the other. -/
theorem count_eq_ite_iff {released handed : List String} (hsub : released ⊆ handed) :
    (∀ id, released.count id = if id ∈ handed then 1 else 0) ↔ released.Nodup ∧ handed ⊆ released := by
  constructor
  · intro h
    refine ⟨List.nodup_iff_count_le_one.2 fun id => ?_, fun id hid => ?_⟩
    · rw [h id]
      split <;> omega
    · rw [← List.count_pos_iff, h id, if_pos hid]
      exact Nat.one_pos
  · rintro ⟨hnodup, hsup⟩ id
    split
    · next hid => exact List.count_eq_one_of_mem hnodup (hsup hid)
    · next hid => exact List.count_eq_zero_of_not_mem fun h => hid (hsub h)

theorem acquiredIds_subset (hs : List Handout) : acquiredIds hs ⊆ hs.map (·.id) :=
  List.map_subset _ (List.filter_subset_self _)

/-- An acquired lease is no exception. -/
theorem subset_acquiredIds_iff (hs : List Handout) :
    hs.map (·.id) ⊆ acquiredIds hs ↔ ∀ h ∈ hs, h.outputs = none → h.id ∈ acquiredIds hs := by
  constructor
  · exact fun h x hx _ => h (List.mem_map_of_mem hx)
  · intro h id hid
    obtain ⟨x, hx, rfl⟩ := List.mem_map.1 hid
    cases hout : x.outputs with
    | none => exact h x hx hout
    | some outputs => exact List.mem_map_of_mem (List.mem_filter.2 ⟨hx, by rw [hout]; rfl⟩)

/-- Every lease that the runner is handed is released exactly once and no other lease is,
exactly when the acquired leases have different ids, and a lease that does not reach the
runner shares its id with one that does. -/
theorem releases_handouts_iff (W : World) (path : String) :
    (∀ id, ((execute W path).trace.filterMap releasedId).count id =
      if id ∈ (execute W path).trace.filterMap handedOutId then 1 else 0) ↔
    ∀ S, setup W path = .ok S → (acquiredIds (handouts W 0 S.fixtures)).Nodup ∧
      ∀ h ∈ handouts W 0 S.fixtures, h.outputs = none → h.id ∈ acquiredIds (handouts W 0 S.fixtures) := by
  cases hsetup : setup W path with
  | error e => simp [execute, hsetup]
  | ok S =>
    obtain ⟨hreleased, hhanded⟩ := execute_handouts hsetup
    rw [hreleased, hhanded, count_eq_ite_iff (acquiredIds_subset _), subset_acquiredIds_iff]
    simp

set_option maxRecDepth 4000 in
/-- The deadline expires while the only lease is pending. -/
theorem pending_lease_not_released : ¬ ∀ (W : World) (path : String) (id : String),
    ((execute W path).trace.filterMap releasedId).count id =
      if id ∈ (execute W path).trace.filterMap handedOutId then 1 else 0 := by
  intro hall
  have hone := hall (sampleWorld [⟨"cache", "redis"⟩] (fun _ => sampleLease ⟨pending, "l0", ∅, []⟩ []) (.ran 0 (.exited 0)))
    "_main/it.run_config.json" "l0"
  revert hone
  decide

end RulesSystemtest.Runner
