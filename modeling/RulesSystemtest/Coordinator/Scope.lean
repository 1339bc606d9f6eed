import RulesSystemtest.Coordinator.LeaseTable
import RulesSystemtest.Coordinator.Reuse

/-! Parts of a run. A scope selects calls by their request and fingerprint, and keeps
the records that such calls store. What concerns it are the steps of the selected
calls, the operations on the leases they were granted and the exits of the processes
they started. In a run in which no other call touches a kept record, and no selected
call another one, calls, processes, records and leases all stay on their side. -/

namespace RulesSystemtest

open Library

structure Scope where
  selects : TakeLeaseRequest → Option FixtureFingerprint → Bool
  keeps : FixtureFingerprint → FixtureRecord → Bool
  keeps_new : ∀ a plugin result, keeps a.fp (newRecord a plugin result) = selects a.req (some a.fp)
  keeps_slots : ∀ fp r n, keeps fp { r with usedSlots := n } = keeps fp r

/-- The calls for one fixture, and those that name none. -/
def Scope.ofFingerprint (f : FixtureFingerprint) : Scope where
  selects _ fp := fp.all (· = f)
  keeps fp _ := fp = f
  keeps_new _ _ _ := rfl
  keeps_slots _ _ _ := rfl

/-- The calls of one client. -/
def Scope.ofClient (client : String) : Scope where
  selects req _ := req.clientId = client
  keeps _ r := r.creatingClientId = client
  keeps_new _ _ _ := rfl
  keeps_slots _ _ _ := rfl

def Scope.mine (S : Scope) (a : Admitted) : Bool := S.selects a.req (some a.fp)

variable {H : Host} {S : Scope} {h : History} {w w' : World} {e : Event} {o : Obs}

/-! ### What concerns a scope -/

/-- The call whose step it is. -/
def Event.caller? : Event → Option CallId
  | .takeLease c _ => some c
  | e => e.call?

/-- The request that a step of a call serves, with its fingerprint. -/
def Moment.request? (H : Host) (t : Moment) : Option (TakeLeaseRequest × Option FixtureFingerprint) :=
  match t.event with
  | .takeLease _ req => some (req, (takeLeaseValidate H t.pre.files req).toOption.map (·.fp))
  | e =>
    match e.call?.bind t.pre.calls.lookup with
    | some (.running a _) => some (a.req, some a.fp)
    | _ => none

def Moment.selected (S : Scope) (H : Host) (t : Moment) : Bool :=
  (t.request? H).any fun r => S.selects r.1 r.2

def Obs.lease? : Obs → Option LeaseId
  | .granted id _ _ => some id
  | _ => none

def Obs.child? : Obs → Option Child
  | .started _ child | .panicked _ child => some child
  | _ => none

/-- A selected call has this id. -/
def Scope.hasCall (S : Scope) (H : Host) (h : History) (c : CallId) : Bool :=
  h.any fun t => t.selected S H && t.event.caller? = some c

/-- A selected call was granted this lease. -/
def Scope.hasLease (S : Scope) (H : Host) (h : History) (id : LeaseId) : Bool :=
  h.any fun t => t.selected S H && t.obs.lease? = some id

/-- A selected call started this process. -/
def Scope.hasChild (S : Scope) (H : Host) (h : History) (child : Child) : Bool :=
  h.any fun t => t.selected S H && t.obs.child? = some child

/-- Files belong to everybody. -/
def Scope.concerns (S : Scope) (H : Host) (h : History) (t : Moment) : Bool :=
  match t.event with
  | .keepalive leaseId | .releaseLease leaseId | .status leaseId => S.hasLease H h ⟨leaseId⟩
  | .exit child _ => S.hasChild H h child
  | .write _ _ => true
  | _ => t.selected S H

/-- A call that attaches to a record or replaces one is on the record's side. -/
structure Separated (S : Scope) (t : Moment) : Prop where
  attach : ∀ c id a r, t.event = .reuse c id → t.pre.calls.lookup c = some (.running a .fingerprinted) →
    findReusable t.pre.state a = some r → S.keeps a.fp r = S.mine a
  insert : ∀ a plugin result r, t.stores? = some (a, plugin, result) →
    t.pre.state.fixtures.lookup a.fp = some r → S.keeps a.fp r = S.mine a

/-! ### How these sets grow -/

theorem hasCall_cons (t : Moment) (c : CallId) : S.hasCall H (t :: h) c =
    ((t.selected S H && t.event.caller? = some c) || S.hasCall H h c) := List.any_cons

theorem hasLease_cons (t : Moment) (id : LeaseId) : S.hasLease H (t :: h) id =
    ((t.selected S H && t.obs.lease? = some id) || S.hasLease H h id) := List.any_cons

theorem hasChild_cons (t : Moment) (child : Child) : S.hasChild H (t :: h) child =
    ((t.selected S H && t.obs.child? = some child) || S.hasChild H h child) := List.any_cons

theorem hasCall_other {t : Moment} {c : CallId} (hc : t.event.caller? ≠ some c) :
    S.hasCall H (t :: h) c = S.hasCall H h c := by
  simp [hasCall_cons, hc]

theorem hasLease_other {t : Moment} {id : LeaseId} (hid : t.obs.lease? ≠ some id) :
    S.hasLease H (t :: h) id = S.hasLease H h id := by
  simp [hasLease_cons, hid]

theorem hasChild_other {t : Moment} {child : Child} (hc : t.obs.child? ≠ some child) :
    S.hasChild H (t :: h) child = S.hasChild H h child := by
  simp [hasChild_cons, hc]

theorem hasCall_quiet (he : e.caller? = none) : S.hasCall H (⟨w, e, o, w'⟩ :: h) = S.hasCall H h :=
  funext fun c => hasCall_other (by simp [he])

theorem hasLease_quiet (ho : o.lease? = none) : S.hasLease H (⟨w, e, o, w'⟩ :: h) = S.hasLease H h :=
  funext fun id => hasLease_other (by simp [ho])

theorem hasChild_quiet (ho : o.child? = none) : S.hasChild H (⟨w, e, o, w'⟩ :: h) = S.hasChild H h :=
  funext fun child => hasChild_other (by simp [ho])

theorem caller?_of_call? {c : CallId} (he : e.call? = some c) : e.caller? = some c := by
  cases e <;> first | exact he | cases he

theorem selected_call {c : CallId} {a : Admitted} {p : Phase} (he : e.call? = some c)
    (hc : w.calls.lookup c = some (.running a p)) : Moment.selected S H ⟨w, e, o, w'⟩ = S.mine a := by
  cases e with
  | takeLease => cases he
  | _ => simp [Moment.selected, Moment.request?, he, hc, Scope.mine]

theorem selected_enter {c : CallId} {req : TakeLeaseRequest} {a : Admitted}
    (hv : takeLeaseValidate H w.files req = .ok a) :
    Moment.selected S H ⟨w, .takeLease c req, o, w'⟩ = S.mine a := by
  obtain ⟨rfl, -⟩ := takeLeaseValidate_eq_ok hv
  simp [Moment.selected, Moment.request?, hv, Scope.mine, Except.toOption]

/-! ### Everything stays on its side -/

structure Scoped (S : Scope) (H : Host) (h : History) (w : World) : Prop where
  running : ∀ c a p, w.calls.lookup c = some (.running a p) → S.hasCall H h c = S.mine a
  idle : ∀ c, w.calls.lookup c = none → S.hasCall H h c = false
  child : ∀ c child, w.owns (.call c) = some child → S.hasChild H h child = S.hasCall H h c
  unborn : ∀ child, w.processes.lookup child = none → S.hasChild H h child = false
  record : ∀ fp r, w.state.fixtures.lookup fp = some r → S.hasChild H h r.plugin.child = S.keeps fp r
  lease : ∀ id fp r, w.state.leases.lookup id = some ⟨fp⟩ → w.state.fixtures.lookup fp = some r →
    S.hasLease H h id = S.keeps fp r
  unissued : ∀ id, id ∉ Ledger.issued (ledger h) → S.hasLease H h id = false

theorem scoped_start (files : FileSystem) : Scoped S H [] (World.start files) where
  running c a p hc := by simp [World.start] at hc
  idle _ _ := rfl
  child c child hc := by simp [World.start, World.owns] at hc
  unborn _ _ := rfl
  record fp r hr := by simp [World.start] at hr
  lease id fp r hid := by simp [World.start] at hid
  unissued _ _ := rfl

/-- A running call does not change sides. -/
theorem Scoped.hasCall_step (hs : Scoped S H h w) {c : CallId} {a : Admitted} {p : Phase}
    (hc : w.calls.lookup c = some (.running a p)) (hst : Step H w e o w') :
    S.hasCall H (⟨w, e, o, w'⟩ :: h) c = S.mine a := by
  by_cases he : e.caller? = some c
  · have hsel : Moment.selected S H ⟨w, e, o, w'⟩ = S.mine a := by
      refine selected_call ?_ hc
      cases e with
      | takeLease c' req =>
        obtain rfl := Option.some.inj he
        cases hst with
        | enter hn | reject hn => rw [hn] at hc; cases hc
      | _ => exact he
    rw [hasCall_cons, hsel, hs.running c a p hc]
    simp [he]
  · rw [hasCall_other he, hs.running c a p hc]

/-- A known process does not change sides. -/
theorem hasChild_known {child : Child} {q : Process} (hq : w.processes.lookup child = some q)
    (hst : Step H w e o w') : S.hasChild H (⟨w, e, o, w'⟩ :: h) child = S.hasChild H h child := by
  refine hasChild_other fun ho => ?_
  cases hst with
  | spawn hc hp | spawnPanic hc hp =>
    obtain rfl := Option.some.inj ho
    rw [hp] at hq
    cases hq
  | _ => cases ho

theorem scoped_running (hs : Scoped S H h w) (hst : Step H w e o w') {c : CallId} {a : Admitted} {p : Phase}
    (hc : w'.calls.lookup c = some (.running a p)) : S.hasCall H (⟨w, e, o, w'⟩ :: h) c = S.mine a := by
  rcases running_step hst hc with ⟨p₀, hc₀⟩ | ⟨req, rfl, hv⟩
  · exact hs.hasCall_step hc₀ hst
  · have hnone : w.calls.lookup c = none := by
      cases hst with
      | enter hn | reject hn => exact hn
    rw [hasCall_cons, selected_enter hv, hs.idle c hnone]
    simp [Event.caller?]

theorem scoped_idle (hs : Scoped S H h w) (hst : Step H w e o w') {c : CallId}
    (hc : w'.calls.lookup c = none) : S.hasCall H (⟨w, e, o, w'⟩ :: h) c = false := by
  have he : e.caller? ≠ some c := by
    intro he
    cases e with
    | takeLease c' req =>
      obtain rfl := Option.some.inj he
      cases hst <;> simp at hc
    | _ =>
      obtain ⟨a, p, -, hfin | ⟨q, hq⟩⟩ := hst.running he
      · rw [hfin] at hc
        cases hc
      · rw [hq] at hc
        cases hc
  rw [hasCall_other he]
  refine hs.idle c ?_
  rw [← hst.other_calls (fun h => he (caller?_of_call? h)) (by rintro req rfl; exact he rfl)]
  exact hc

/-- A call that holds a process runs. -/
theorem Scoped.hasCall_holder (hs : Scoped S H h w) {c : CallId} {child : Child}
    (hown : w.owns (.call c) = some child) (hst : Step H w e o w') :
    S.hasCall H (⟨w, e, o, w'⟩ :: h) c = S.hasCall H h c := by
  cases hc : w.calls.lookup c with
  | none => simp [World.owns, hc] at hown
  | some k =>
    cases k with
    | finished => simp [World.owns, hc, Call.child?] at hown
    | running a p => rw [hs.hasCall_step hc hst, hs.running c a p hc]

theorem scoped_child (hs : Scoped S H h w) (hg : Guarded w) (hst : Step H w e o w') {c : CallId} {child : Child}
    (hown : w'.owns (.call c) = some child) :
    S.hasChild H (⟨w, e, o, w'⟩ :: h) child = S.hasCall H (⟨w, e, o, w'⟩ :: h) c := by
  rcases holds_started hst hown with hold | rfl
  · obtain ⟨q, hq, -⟩ := hg.alive _ _ hold
    rw [hasChild_known hq hst, hs.hasCall_holder hold hst, hs.child c child hold]
  · cases hst with
    | spawn hc hp hf hd =>
      rw [hasChild_cons, selected_call rfl hc, hs.unborn child hp,
        hs.hasCall_step hc (.spawn hc hp hf hd)]
      simp [Obs.child?]

theorem scoped_unborn (hs : Scoped S H h w) (hst : Step H w e o w') {child : Child}
    (hn : w'.processes.lookup child = none) : S.hasChild H (⟨w, e, o, w'⟩ :: h) child = false := by
  have hold : w.processes.lookup child = none := by
    cases hp : w.processes.lookup child with
    | none => rfl
    | some p =>
      obtain ⟨K, hK⟩ := (step_custody hst).evolves
      obtain ⟨p', hp', -⟩ := hK.keep child p hp
      rw [hn] at hp'
      cases hp'
  rw [hasChild_other, hs.unborn child hold]
  intro ho
  cases hst with
  | spawn | spawnPanic =>
    obtain rfl := Option.some.inj ho
    simp at hn
  | _ => cases ho

/-- What is kept of a record does not depend on its counter. -/
theorem keeps_fixed (fp : FixtureFingerprint) (r : FixtureRecord) : S.keeps fp r.fixed = S.keeps fp r :=
  S.keeps_slots fp r 0

theorem scoped_record (hs : Scoped S H h w) (hg : Guarded w) (hst : Step H w e o w')
    {fp : FixtureFingerprint} {r : FixtureRecord} (hr : w'.state.fixtures.lookup fp = some r) :
    S.hasChild H (⟨w, e, o, w'⟩ :: h) r.plugin.child = S.keeps fp r := by
  rcases record_step hst fp with hfixed | ⟨⟨a, plugin, result⟩, hx, rfl, hnew⟩
  · rw [hr] at hfixed
    obtain ⟨r₀, hr₀, heq⟩ := Option.map_eq_some_iff.1 hfixed.symm
    have hchild : r₀.plugin = r.plugin := congrArg (·.plugin) heq
    obtain ⟨q, hq, -⟩ := hg.alive _ _ (owns_record hr₀)
    rw [← keeps_fixed, ← heq, keeps_fixed, ← hs.record fp r₀ hr₀, ← hchild, hasChild_known hq hst]
  · obtain ⟨c, id, -, hc⟩ := stores?_eq_some.1 hx
    rw [hnew] at hr
    obtain rfl := Option.some.inj hr
    have hown : w.owns (.call c) = some plugin.child := owns_call hc
    obtain ⟨q, hq, -⟩ := hg.alive _ _ hown
    rw [S.keeps_new]
    exact (hasChild_known hq hst).trans ((hs.child c _ hown).trans (hs.running c a _ hc))

/-- A lease granted now is on the side of the call. -/
theorem Scoped.hasLease_granted (hs : Scoped S H h w) (hf : FreshIds (⟨w, e, o, w'⟩ :: h)) {c : CallId}
    {a : Admitted} {p : Phase} {id : LeaseId} {g : Grant} {resp : TakeLeaseResponse} (he : e.call? = some c)
    (hc : w.calls.lookup c = some (.running a p)) (ho : o = .granted id g resp) :
    S.hasLease H (⟨w, e, o, w'⟩ :: h) id = S.mine a := by
  subst ho
  rw [hasLease_cons, selected_call he hc, hs.unissued id (hf.not_issued rfl)]
  simp [Obs.lease?]

theorem scoped_lease (hs : Scoped S H h w) (hl : LeaseTable h w) (hf : FreshIds (⟨w, e, o, w'⟩ :: h))
    (hsep : Separated S ⟨w, e, o, w'⟩) (hst : Step H w e o w') {id : LeaseId} {fp : FixtureFingerprint}
    {r : FixtureRecord} (hid : w'.state.leases.lookup id = some ⟨fp⟩)
    (hr : w'.state.fixtures.lookup fp = some r) : S.hasLease H (⟨w, e, o, w'⟩ :: h) id = S.keeps fp r := by
  cases hst with
  | @attach c a record id' hc hfind =>
    have hrec := (findReusable_eq_some.1 hfind).1
    rw [setCall_state, attach_leases] at hid
    rw [setCall_state, attach_fixtures] at hr
    split at hid
    · next heq =>
      subst heq
      obtain rfl := LeaseRecord.mk.inj (Option.some.inj hid)
      rw [if_pos rfl, Option.some.injEq] at hr
      rw [hs.hasLease_granted hf rfl hc rfl, ← hr, S.keeps_slots,
        hsep.attach c id a record rfl hc hfind]
    · next hne =>
      rw [hasLease_other (by simpa [Obs.lease?, eq_comm] using hne)]
      split at hr
      · next heq =>
        subst heq
        obtain rfl := Option.some.inj hr
        rw [S.keeps_slots]
        exact hs.lease id a.fp record hid hrec
      · exact hs.lease id fp r hid hr
  | @insert c a plugin result id' hc =>
    rw [setCall_state, dropRecord_state, insert_leases] at hid
    rw [setCall_state, dropRecord_state, insert_fixtures] at hr
    split at hid
    · next heq =>
      subst heq
      obtain rfl := LeaseRecord.mk.inj (Option.some.inj hid)
      rw [if_pos rfl, Option.some.injEq] at hr
      rw [hs.hasLease_granted hf rfl hc rfl, ← hr, S.keeps_new]
      rfl
    · next hne =>
      rw [hasLease_other (by simpa [Obs.lease?, eq_comm] using hne)]
      split at hr
      · next heq =>
        -- a lease on the record replaced, which is on the side of the call
        subst heq
        obtain ⟨r₀, hr₀⟩ := hl.backed id ⟨a.fp⟩ hid
        obtain rfl := Option.some.inj hr
        rw [S.keeps_new, hs.lease id a.fp r₀ hid hr₀,
          hsep.insert a plugin result r₀ (stores?_eq_some.2 ⟨c, id', rfl, hc⟩) hr₀]
        rfl
      · exact hs.lease id fp r hid hr
  | @release leaseId =>
    rw [release_leases] at hid
    rw [hasLease_other (by simp [Obs.lease?])]
    split at hid
    · cases hid
    · rw [release_fixtures] at hr
      split at hr
      · obtain ⟨r₀, hr₀, rfl⟩ := Option.map_eq_some_iff.1 hr
        rw [S.keeps_slots, hs.lease id fp r₀ hid hr₀]
      · exact hs.lease id fp r hid hr
  | describeFail | createFail | cancelGuarded =>
    rw [hasLease_other (by simp [Obs.lease?])]
    exact hs.lease id fp r (by simpa using hid) (by simpa using hr)
  | _ =>
    rw [hasLease_other (by simp [Obs.lease?])]
    exact hs.lease id fp r hid hr

theorem scoped_unissued (hs : Scoped S H h w) {id : LeaseId}
    (hid : id ∉ Ledger.issued (ledger (⟨w, e, o, w'⟩ :: h))) : S.hasLease H (⟨w, e, o, w'⟩ :: h) id = false := by
  cases o with
  | granted id' g resp =>
    rw [ledger_entry rfl, Ledger.issued, List.mem_cons, not_or] at hid
    rw [hasLease_other (by simpa [Obs.lease?, eq_comm] using hid.1), hs.unissued id hid.2]
  | released leaseId =>
    rw [ledger_entry rfl] at hid
    rw [hasLease_other (by simp [Obs.lease?]), hs.unissued id hid]
  | _ =>
    rw [ledger_quiet rfl] at hid
    rw [hasLease_other (by simp [Obs.lease?]), hs.unissued id hid]

theorem Runs.scoped (hr : Runs H h w) (hf : FreshIds h) (hsep : Along (fun _ t => Separated S t) h) :
    Scoped S H h w := by
  refine Machine.Run.invariant (freshIds_hereditary.and (hereditary_along _)) (I := Scoped S H) ?_ ?_ hr ⟨hf, hsep⟩
  · rintro _ ⟨files, rfl⟩
    exact scoped_start files
  · intro h w e o w' hr ⟨hf, hsep⟩ hs hst
    have hst : Step H w e o w' := step_cases hst
    have hg := Runs.guarded hr
    have hl := Runs.leaseTable hr (freshIds_hereditary _ _ hf)
    exact ⟨fun c a p => scoped_running hs hst, fun c => scoped_idle hs hst, fun c child => scoped_child hs hg hst,
      fun child => scoped_unborn hs hst, fun fp r => scoped_record hs hg hst,
      fun id fp r => scoped_lease hs hl hf hsep.1 hst, fun id => scoped_unissued hs⟩

end RulesSystemtest
