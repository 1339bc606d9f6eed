import RulesSystemtest.Deployment.Wiring
import RulesSystemtest.Library.Ownership

/-! Where a lease is: in a reply on its way to its runner, with the runner, or in the
release that the runner sent. `LeaseMove` says what one step does to the places of the
leases and to the ledger of the coordinator together. Every lease that is in some place
is outstanding, and it is in one place only, so it is given back once at most. -/

namespace RulesSystemtest.Deployment

open Library Runner

variable {H : Host} {D D' : State} {e : Event} {o : Obs} {h : History}

/-! ### Places -/

inductive Place where
  | rpc (c : CallId)
  | lease (r : RunnerId) (n : ℕ)
  deriving DecidableEq

def Rpc.lease? : Rpc → Option LeaseId
  | .took (.ok resp) => some ⟨resp.leaseId⟩
  | .releaseLease leaseID => some ⟨leaseID⟩
  | _ => none

/-- The lease for the `n`-th fixture, while it is held. -/
def leaseFor (leases : List ActiveLease) (n : ℕ) : Option LeaseId := (leases.find? (·.stop = n)).map (⟨·.id⟩)

def State.owns (D : State) : Place → Option LeaseId
  | .rpc c => (D.rpcs.lookup c).bind Rpc.lease?
  | .lease r n => (D.runners.lookup r).bind fun m => leaseFor m.locals.leases n

theorem leaseFor_append {leases : List ActiveLease} {l : ActiveLease} (hl : ∀ l' ∈ leases, l'.stop ≠ l.stop) :
    leaseFor (leases ++ [l]) = Function.update (leaseFor leases) l.stop (some ⟨l.id⟩) := by
  funext n
  unfold leaseFor
  rw [List.find?_append]
  by_cases hn : n = l.stop
  · subst hn
    rw [Function.update_self, List.find?_eq_none.2 (by simpa using hl)]
    simp
  · rw [Function.update_of_ne hn, List.find?_singleton, if_neg (by simpa using Ne.symm hn), Option.or_none]

theorem leaseFor_cons {l : ActiveLease} {leases : List ActiveLease} (hl : ∀ l' ∈ leases, l'.stop ≠ l.stop) :
    leaseFor leases = Function.update (leaseFor (l :: leases)) l.stop none := by
  funext n
  unfold leaseFor
  by_cases hn : n = l.stop
  · subst hn
    rw [Function.update_self, List.find?_eq_none.2 (by simpa using hl)]
    rfl
  · rw [Function.update_of_ne hn, List.find?_cons_of_neg (by simpa using Ne.symm hn)]

theorem leaseFor_self (l : ActiveLease) (leases : List ActiveLease) :
    leaseFor (l :: leases) l.stop = some ⟨l.id⟩ := by
  simp [leaseFor]

/-- The leases in the list of a runner are the ones in its places. -/
theorem leaseFor_eq_some {leases : List ActiveLease} (hn : (leases.map (·.stop)).Nodup) {l : ActiveLease}
    (hl : l ∈ leases) : leaseFor leases l.stop = some ⟨l.id⟩ := by
  induction leases with
  | nil => cases hl
  | cons l' leases ih =>
    obtain ⟨hl', hn⟩ := List.nodup_cons.1 hn
    have hne : ∀ l'' ∈ leases, l''.stop ≠ l'.stop := fun l'' hl'' heq => hl' (List.mem_map.2 ⟨l'', hl'', heq⟩)
    rcases List.mem_cons.1 hl with rfl | hl
    · exact leaseFor_self ..
    · have hcons := congrFun (leaseFor_cons hne) l.stop
      rw [Function.update_of_ne (hne l hl)] at hcons
      rw [← hcons, ih hn hl]

/-! ### Frame lemmas -/

theorem owns_rpcs (c : CallId) (rpc : Rpc) :
    { D with rpcs := D.rpcs.insert c rpc }.owns = Function.update D.owns (.rpc c) rpc.lease? := by
  funext p
  cases p with
  | rpc c' =>
    by_cases hc : c' = c
    · subst hc
      simp [State.owns]
    · have hne : Place.rpc c' ≠ .rpc c := by simpa using hc
      rw [Function.update_of_ne hne]
      simp [State.owns, Finmap.lookup_insert_of_ne _ hc]
  | lease r n => rfl

/-- A call that carries no lease before and after keeps all of them. -/
theorem owns_rpcs_same {c : CallId} {rpc : Rpc} (hc : D.owns (.rpc c) = rpc.lease?) :
    { D with rpcs := D.rpcs.insert c rpc }.owns = D.owns := by
  rw [owns_rpcs, ← hc, Function.update_eq_self]

theorem owns_coordinator (w : RulesSystemtest.World) : { D with coordinator := w }.owns = D.owns := by
  funext p
  cases p <;> rfl

theorem owns_runner_same {r : RunnerId} {m m' : Member} (hm : D.runners.lookup r = some m)
    (hl : m'.locals.leases = m.locals.leases) : { D with runners := D.runners.insert r m' }.owns = D.owns := by
  funext p
  cases p with
  | rpc c => rfl
  | lease r' n =>
    by_cases hr : r' = r
    · subst hr
      simp [State.owns, hm, hl]
    · simp [State.owns, Finmap.lookup_insert_of_ne _ hr]

/-- One lease of a runner changes. -/
theorem owns_runner_update {r : RunnerId} {m m' : Member} (hm : D.runners.lookup r = some m) {n : ℕ}
    {k : Option LeaseId} (hl : leaseFor m'.locals.leases = Function.update (leaseFor m.locals.leases) n k) :
    { D with runners := D.runners.insert r m' }.owns = Function.update D.owns (.lease r n) k := by
  funext p
  cases p with
  | rpc c => rfl
  | lease r' n' =>
    by_cases hr : r' = r
    · subst hr
      by_cases hn : n' = n
      · subst hn
        simp [State.owns, hl]
      · have hne : Place.lease r' n' ≠ .lease r' n := by simpa using hn
        rw [Function.update_of_ne hne]
        simp [State.owns, hl, hm, hn]
    · have hne : Place.lease r' n' ≠ .lease r n := by simp [hr]
      rw [Function.update_of_ne hne]
      simp [State.owns, Finmap.lookup_insert_of_ne _ hr]

theorem owns_lease {r : RunnerId} {m : Member} (hm : D.runners.lookup r = some m) (n : ℕ) :
    D.owns (.lease r n) = leaseFor m.locals.leases n := by
  simp [State.owns, hm]

theorem owns_rpc {c : CallId} {rpc : Rpc} (hc : D.rpcs.lookup c = some rpc) : D.owns (.rpc c) = rpc.lease? := by
  simp [State.owns, hc]

/-! ### What a step does to the leases -/

def Obs.entry? : Obs → Option (Ledger.Entry LeaseId Grant)
  | .moved _ o => o.entry?
  | _ => none

theorem ledger_served_quiet (ho : o.entry? = none) : ledger (served (⟨D, e, o, D'⟩ :: h)) = ledger (served h) := by
  cases o with
  | moved e o =>
    rw [served_moved]
    exact ledger_quiet ho
  | _ => rfl

theorem ledger_served_entry {x : Ledger.Entry LeaseId Grant} (ho : o.entry? = some x) :
    ledger (served (⟨D, e, o, D'⟩ :: h)) = x :: ledger (served h) := by
  cases o with
  | moved e o =>
    rw [served_moved]
    exact ledger_entry ho
  | _ => cases ho

/-- The events at which something goes missing. -/
def Event.loses : Event → Bool
  | .crash _ | .lose _ => true
  | _ => false

inductive LeaseMove (D : State) (e : Event) (o : Obs) (D' : State) : Prop where
  | kept (hl : o.entry? = none) (ho : D'.owns = D.owns)
  | granted {c : CallId} {id : LeaseId} {g : Grant} (hl : o.entry? = some (.grant id g)) (hc : D.owns (.rpc c) = none)
      (ho : D'.owns = Function.update D.owns (.rpc c) (some id))
  | passed (p p' : Place) (id : LeaseId) (hl : o.entry? = none) (hp : D.owns p = some id) (hp' : D.owns p' = none)
      (ho : D'.owns = Function.update (Function.update D.owns p none) p' (some id))
  | released {c : CallId} {id : LeaseId} (hl : o.entry? = some (.release id)) (hc : D.owns (.rpc c) = some id)
      (ho : D'.owns = Function.update D.owns (.rpc c) none)
  | lost (hl : o.entry? = none) (he : e.loses = true) (ho : ∀ p id, D'.owns p = some id → D.owns p = some id)

/-- What the main thread sends carries a lease only if it releases one. -/
theorem nextCall_cases {J : Job} {L : Local} {i : Input} {rpc : Rpc} (h : nextCall J L = some (i, rpc)) :
    i ≠ .release ∧ rpc.lease? = none ∧ (∀ resp, i ≠ .took (.ok resp)) ∨
      i = .release ∧ ∃ lease leases, L.leases = lease :: leases ∧ rpc = .releaseLease lease.id := by
  unfold nextCall at h
  split at h
  · cases h
    exact .inl ⟨nofun, rfl, nofun⟩
  · cases h
    exact .inl ⟨nofun, rfl, nofun⟩
  · obtain ⟨lease, hl, heq⟩ := Option.map_eq_some_iff.1 h
    cases heq
    obtain ⟨leases, hl⟩ := List.head?_eq_some_iff.1 hl
    exact .inr ⟨rfl, lease, leases, hl, rfl⟩
  · cases h

theorem owns_runner_moved {r : RunnerId} {m : Member} {i : Input} {t : List Runner.Event} {L : Local}
    (call : Option CallId) (hD : Wired D) (hm : D.runners.lookup r = some m) (hst : m.locals.step m.job i = some (t, L))
    (hrelease : i ≠ .release) (htook : ∀ resp, i ≠ .took (.ok resp)) :
    { D with runners := D.runners.insert r ⟨m.job, L, call⟩ }.owns = D.owns := by
  rcases leases_moves (moves_of_step hst) (hD.unpolled r m hm) htook with ⟨-, hl⟩ | ⟨hi, -⟩
  · exact owns_runner_same hm hl
  · exact absurd hi hrelease

theorem leaseMove_send (hD : Wired D) {r : RunnerId} {c : CallId} {m : Member} {i : Input} {rpc : Rpc}
    {t : List Runner.Event} {L : Local} (hs : m.locals.Sound m.job) (hm : D.runners.lookup r = some m)
    (hc : D.rpcs.lookup c = none) (hn : nextCall m.job m.locals = some (i, rpc))
    (hst : m.locals.step m.job i = some (t, L)) :
    LeaseMove D (.send r c) (.did r t)
      { D with runners := D.runners.insert r ⟨m.job, L, some c⟩, rpcs := D.rpcs.insert c rpc } := by
  have hnone : D.owns (.rpc c) = none := by simp [State.owns, hc]
  rcases nextCall_cases hn with ⟨hrelease, hlease, htook⟩ | ⟨rfl, lease, leases, hl, rfl⟩
  · have howns := owns_runner_moved (some c) hD hm hst hrelease htook
    refine .kept rfl ((owns_rpcs_same ?_).trans howns)
    rw [howns, hnone, hlease]
  · -- the first lease of the list leaves it
    rcases leases_moves (moves_of_step hst) (hD.unpolled r m hm) nofun with ⟨hi, -⟩ | ⟨-, lease', hl'⟩
    · exact absurd rfl hi
    · obtain ⟨rfl, rfl⟩ := List.cons.inj (hl.symm.trans hl')
      have hnodup := hs.nodup
      rw [hl] at hnodup
      have hne : ∀ l ∈ L.leases, l.stop ≠ lease.stop := fun l hmem heq =>
        (List.nodup_cons.1 hnodup).1 (List.mem_map.2 ⟨l, hmem, heq⟩)
      have hfor : leaseFor L.leases = Function.update (leaseFor m.locals.leases) lease.stop none := by
        rw [hl, ← leaseFor_cons hne]
      refine .passed (.lease r lease.stop) (.rpc c) ⟨lease.id⟩ rfl ?_ hnone ?_
      · rw [owns_lease hm, hl]
        exact leaseFor_self ..
      · let D₁ : State := { D with runners := D.runners.insert r ⟨m.job, L, some c⟩ }
        have howns : D₁.owns = Function.update D.owns (.lease r lease.stop) none := owns_runner_update hm hfor
        rw [← howns]
        exact owns_rpcs (D := D₁) c _

theorem leaseMove_receive (hD : Wired D) {r : RunnerId} {c : CallId} {m : Member} {i : Input} {rpc : Rpc}
    {t : List Runner.Event} {L : Local} (hs : m.locals.Sound m.job) (hm : D.runners.lookup r = some m)
    (hc : D.rpcs.lookup c = some rpc) (hi : rpc.input? = some i) (hst : m.locals.step m.job i = some (t, L)) :
    LeaseMove D (.receive r) (.did r t)
      { D with runners := D.runners.insert r ⟨m.job, L, none⟩, rpcs := D.rpcs.insert c .done } := by
  by_cases htook : ∃ resp, i = .took (.ok resp)
  · obtain ⟨resp, rfl⟩ := htook
    obtain rfl := input?_granted hi
    obtain ⟨⟨fx, todo, hstage⟩, hl⟩ := leases_took (moves_of_step hst) (hD.replies c resp hc)
    have hfresh : ∀ l ∈ m.locals.leases, l.stop ≠ m.locals.next := by
      intro l hmem heq
      have hstop : l.stop ∈ m.locals.leases.map (·.stop) := List.mem_map_of_mem hmem
      rw [hs.numbered (by rw [hstage]; rfl), List.mem_range] at hstop
      exact absurd heq hstop.ne
    have hfor : leaseFor L.leases = Function.update (leaseFor m.locals.leases) m.locals.next (some ⟨resp.leaseId⟩) := by
      rw [hl]
      exact leaseFor_append hfresh
    let D₁ : State := { D with rpcs := D.rpcs.insert c .done }
    have howns : D₁.owns = Function.update D.owns (.rpc c) none := owns_rpcs c _
    refine .passed (.rpc c) (.lease r m.locals.next) ⟨resp.leaseId⟩ rfl (owns_rpc hc) ?_ ?_
    · rw [owns_lease hm, leaseFor, List.find?_eq_none.2 (by simpa using hfresh)]
      rfl
    rw [← howns]
    exact owns_runner_update (D := D₁) hm hfor
  · have hrelease : i ≠ .release := by
      rintro rfl
      cases rpc <;> cases hi
    have howns := owns_runner_moved none hD hm hst hrelease fun resp heq => htook ⟨resp, heq⟩
    refine .kept rfl ((owns_rpcs_same ?_).trans howns)
    rw [howns, owns_rpc hc]
    cases rpc with
    | took reply =>
      cases reply with
      | error s => rfl
      | ok resp => exact absurd ⟨resp, (Option.some.inj hi).symm⟩ htook
    | told reply => rfl
    | _ => cases hi

theorem leaseMove_arrive {c : CallId} {rpc : Rpc} {e : RulesSystemtest.Event} {o : RulesSystemtest.Obs}
    {w : RulesSystemtest.World} (hc : D.rpcs.lookup c = some rpc) (he : rpc.request? c = some e)
    (hst : RulesSystemtest.Step H D.coordinator e o w) :
    LeaseMove D (.arrive c) (.moved e o) { D with coordinator := w, rpcs := D.rpcs.insert c (arrived o) } := by
  have howns : State.owns { D with coordinator := w, rpcs := D.rpcs.insert c (arrived o) } =
      Function.update D.owns (.rpc c) (arrived o).lease? := owns_rpcs c _
  cases rpc with
  | releaseLease leaseID =>
    cases he
    cases hst
    exact .released rfl (owns_rpc hc) howns
  | takeLease | status | keepalive =>
    cases he
    have hnone : D.owns (.rpc c) = none := owns_rpc hc
    cases hst <;> exact .kept rfl (howns.trans (Function.update_eq_self_iff.2 hnone.symm))
  | serving | took | told | done => cases he

theorem leaseMove_serve (hD : Wired D) {e : RulesSystemtest.Event} {o : RulesSystemtest.Obs}
    {w : RulesSystemtest.World} (he : isInternal e = true) (hst : RulesSystemtest.Step H D.coordinator e o w) :
    LeaseMove D (.serve e) (.moved e o) { D with coordinator := w, rpcs := endCall D.rpcs (ended? o) } := by
  have howns : ∀ c rpc, ended? o = some (c, rpc) →
      State.owns { D with coordinator := w, rpcs := endCall D.rpcs (ended? o) } =
        Function.update D.owns (.rpc c) rpc.lease? := by
    intro c rpc hended
    rw [hended]
    exact owns_rpcs c _
  have hserving : ∀ c a p, D.coordinator.calls.lookup c = some (.running a p) → D.owns (.rpc c) = none := by
    intro c a p hc
    have hagree := hD.agree c
    rw [hc] at hagree
    exact owns_rpc hagree.serving
  cases hst with
  | enter | reject | keepalive | release | status => cases he
  | attach hc | insert hc => exact .granted rfl (hserving _ _ _ hc) (howns _ _ rfl)
  | spawnFail hc | connectFail hc | describeFail hc | createFail hc | spawnPanic hc | cancelBare hc | cancelGuarded hc =>
    exact .kept rfl ((howns _ _ rfl).trans (Function.update_eq_self_iff.2 (hserving _ _ _ hc).symm))
  | _ => exact .kept rfl (owns_coordinator _)

theorem owns_start {r : RunnerId} {J : Job} (hr : D.runners.lookup r = none) :
    { D with runners := D.runners.insert r ⟨J, .start J, none⟩ }.owns = D.owns := by
  funext p
  cases p with
  | rpc c => rfl
  | lease r' n =>
    by_cases heq : r' = r
    · subst heq
      simp [State.owns, hr, Local.start, leaseFor]
    · simp [State.owns, Finmap.lookup_insert_of_ne _ heq]

theorem owns_crash {r : RunnerId} {p : Place} {id : LeaseId}
    (h : { D with runners := D.runners.erase r }.owns p = some id) : D.owns p = some id := by
  cases p with
  | rpc c => exact h
  | lease r' n =>
    simp only [State.owns, HashMap.lookup_erase] at h ⊢
    split at h
    · cases h
    · exact h

theorem leaseMove_of_step (hr : Runs H h D) (hst : Step H D e o D') : LeaseMove D e o D' := by
  have hD := hr.wired
  cases hst with
  | start hr => exact .kept rfl (owns_start hr)
  | send hm hc hn hst => exact leaseMove_send hD (hr.sound hm) hm hc hn hst
  | receive hm _ hc hi hst => exact leaseMove_receive hD (hr.sound hm) hm hc hi hst
  | act hm hi hst =>
    refine .kept rfl (owns_runner_moved none hD hm hst ?_ ?_)
    · rintro rfl
      cases hi
    · rintro resp rfl
      cases hi
  | crash hm => exact .lost rfl rfl fun p id hp => owns_crash hp
  | beat hm hc hl =>
    refine .kept rfl (owns_rpcs_same ?_)
    simp [State.owns, hc, Rpc.lease?]
  | arrive hc he hst => exact leaseMove_arrive hc he hst
  | @lose c rpc hc hf =>
    refine .lost rfl rfl fun p id hp => ?_
    rw [owns_rpcs] at hp
    by_cases heq : p = .rpc c
    · subst heq
      rw [Function.update_self] at hp
      cases hp
    · rwa [Function.update_of_ne heq] at hp
  | serve he hst => exact leaseMove_serve hD he hst

/-! ### Leases in some place -/

theorem outstanding_served_quiet (ho : o.entry? = none) {id : LeaseId} {g : Grant} :
    Outstanding (served (⟨D, e, o, D'⟩ :: h)) id g ↔ Outstanding (served h) id g := by
  unfold Outstanding
  rw [ledger_served_quiet ho]

theorem outstanding_served_grant {id id' : LeaseId} {g g' : Grant} (ho : o.entry? = some (.grant id g)) :
    Outstanding (served (⟨D, e, o, D'⟩ :: h)) id' g' ↔ id' = id ∧ g' = g ∨ Outstanding (served h) id' g' := by
  unfold Outstanding
  rw [ledger_served_entry ho]
  simp [Ledger.held]

theorem outstanding_served_release {id id' : LeaseId} {g' : Grant} (ho : o.entry? = some (.release id)) :
    Outstanding (served (⟨D, e, o, D'⟩ :: h)) id' g' ↔ Outstanding (served h) id' g' ∧ id' ≠ id := by
  unfold Outstanding
  rw [ledger_served_entry ho]
  exact Ledger.mem_held_release

/-- What is granted now was in no ledger before. -/
theorem not_outstanding_served {id : LeaseId} {g : Grant} (hf : FreshIds (served (⟨D, e, o, D'⟩ :: h)))
    (ho : o.entry? = some (.grant id g)) (g' : Grant) : ¬ Outstanding (served h) id g' := by
  unfold FreshIds at hf
  rw [ledger_served_entry ho] at hf
  exact fun hg => (List.nodup_cons.1 hf).1 (Ledger.mem_issued_of_mem_held hg)

/-- Every lease in some place is outstanding, and is in no other place. -/
structure Placed (h : History) (D : State) : Prop where
  exclusive : Exclusive D.owns
  outstanding : ∀ p id, D.owns p = some id → ∃ g, Outstanding (served h) id g

theorem placed_start (files : FileSystem) : Placed [] (.start files) := by
  have hnone : ∀ p, (State.start files).owns p = none := fun p => by cases p <;> simp [State.owns, State.start]
  constructor
  · intro p p' id hp
    rw [hnone p] at hp
    cases hp
  · intro p id hp
    rw [hnone p] at hp
    cases hp

/-- An update of the places shows what was there or what was put there. -/
theorem update_eq_some {owns : Place → Option LeaseId} {p p' : Place} {k : Option LeaseId} {id : LeaseId}
    (h : Function.update owns p k p' = some id) : p' = p ∧ k = some id ∨ p' ≠ p ∧ owns p' = some id := by
  by_cases hp : p' = p
  · subst hp
    rw [Function.update_self] at h
    exact .inl ⟨rfl, h⟩
  · rw [Function.update_of_ne hp] at h
    exact .inr ⟨hp, h⟩

theorem placed_step (hf : FreshIds (served (⟨D, e, o, D'⟩ :: h))) (hp : Placed h D) (hm : LeaseMove D e o D') :
    Placed (⟨D, e, o, D'⟩ :: h) D' := by
  obtain ⟨hexcl, hout⟩ := hp
  cases hm with
  | kept hl ho =>
    rw [← ho] at hexcl hout
    exact ⟨hexcl, fun p id hp => (hout p id hp).imp fun g => (outstanding_served_quiet hl).2⟩
  | @granted c id g hl hc ho =>
    have hnew : ∀ p, D.owns p ≠ some id := fun p hp =>
      not_outstanding_served hf hl _ (hout p id hp).choose_spec
    refine ⟨ho ▸ hexcl.acquire hnew _, fun p id' hp => ?_⟩
    rw [ho] at hp
    rcases update_eq_some hp with ⟨-, hid⟩ | ⟨-, hp⟩
    · exact ⟨g, (outstanding_served_grant hl).2 (.inl ⟨(Option.some.inj hid).symm, rfl⟩)⟩
    · exact (hout p id' hp).imp fun g' hg => (outstanding_served_grant hl).2 (.inr hg)
  | passed p p' id hl hp hp' ho =>
    refine ⟨ho ▸ hexcl.handOver hp _, fun q id' hq => ?_⟩
    simp only [outstanding_served_quiet hl]
    rw [ho] at hq
    rcases update_eq_some hq with ⟨-, hid⟩ | ⟨-, hq⟩
    · exact Option.some.inj hid ▸ hout p id hp
    · rcases update_eq_some hq with ⟨-, hid⟩ | ⟨-, hq⟩
      · cases hid
      · exact hout q id' hq
  | @released c id hl hc ho =>
    refine ⟨ho ▸ hexcl.drop _, fun p id' hp => ?_⟩
    rw [ho] at hp
    rcases update_eq_some hp with ⟨-, hid⟩ | ⟨hne, hp⟩
    · cases hid
    · obtain ⟨g, hg⟩ := hout p id' hp
      refine ⟨g, (outstanding_served_release hl).2 ⟨hg, ?_⟩⟩
      rintro rfl
      exact hne (hexcl _ _ _ hp hc)
  | lost hl he ho =>
    exact ⟨hexcl.of_le ho, fun p id hp => (hout p id (ho p id hp)).imp fun g => (outstanding_served_quiet hl).2⟩

theorem Runs.placed (hr : Runs H h D) (hf : FreshIds (served h)) : Placed h D := by
  refine Machine.Run.invariant (served_hereditary freshIds_hereditary) (I := Placed) ?_ ?_ hr hf
  · rintro _ ⟨files, rfl⟩
    exact placed_start files
  · exact fun h D e o D' hr hf hp hst => placed_step hf hp (leaseMove_of_step hr (step_cases hst))

end RulesSystemtest.Deployment
