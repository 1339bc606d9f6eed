import RulesSystemtest.Coordinator.Shadow

/-! Isolation of a scope. A step that does not concern the scope is not seen by its
shadow, and one that does is matched by the same step of the shadow, with the same
answer. So every run, with the steps that do not concern the scope deleted, is again
a run. -/

namespace RulesSystemtest

open Library

variable {H : Host} {S : Scope} {h : History} {w w' u v v' : World} {e : Event} {o : Obs}
  {ρ : LeaseId → LeaseId}

/-! ### Renamed lease ids -/

def Event.rename (ρ : LeaseId → LeaseId) : Event → Event
  | .reuse c random => .reuse c (ρ random)
  | .insert c random => .insert c (ρ random)
  | .keepalive leaseId => .keepalive (ρ ⟨leaseId⟩).value
  | .releaseLease leaseId => .releaseLease (ρ ⟨leaseId⟩).value
  | .status leaseId => .status (ρ ⟨leaseId⟩).value
  | e => e

def Obs.rename (ρ : LeaseId → LeaseId) : Obs → Obs
  | .granted lease g resp => .granted (ρ lease) g { resp with leaseId := (ρ ⟨resp.leaseId⟩).value }
  | .kept leaseId reply => .kept (ρ ⟨leaseId⟩).value reply
  | .released leaseId => .released (ρ ⟨leaseId⟩).value
  | .reported leaseId reply => .reported (ρ ⟨leaseId⟩).value reply
  | o => o

/-- The same operation, on the same files and with the same answer. -/
structure Alike (ρ : LeaseId → LeaseId) (t t' : Moment) : Prop where
  files : t'.pre.files = t.pre.files
  event : t'.event = t.event.rename ρ
  obs : t'.obs = t.obs.rename ρ

/-! ### What the scope does not see -/

def Shadows (S : Scope) (H : Host) (ρ : LeaseId → LeaseId) (h : History) (w u : World) : Prop :=
  Shadow S ρ (S.hasCall H h) (S.hasLease H h) (S.hasChild H h) w u

/-- A step that does not concern the scope makes nothing new its own. -/
theorem shadows_unconcerned (hst : Step H w e o w') (hcon : S.concerns H h ⟨w, e, o, w'⟩ = false)
    (hsh : Shadows S H ρ h v u) : Shadows S H ρ (⟨w, e, o, w'⟩ :: h) v u := by
  have call : Moment.selected S H ⟨w, e, o, w'⟩ = false → Shadows S H ρ (⟨w, e, o, w'⟩ :: h) v u := by
    intro hsel
    have hc : S.hasCall H (⟨w, e, o, w'⟩ :: h) = S.hasCall H h := by
      funext c
      simp [hasCall_cons, hsel]
    have hl : S.hasLease H (⟨w, e, o, w'⟩ :: h) = S.hasLease H h := by
      funext id
      simp [hasLease_cons, hsel]
    have hp : S.hasChild H (⟨w, e, o, w'⟩ :: h) = S.hasChild H h := by
      funext child
      simp [hasChild_cons, hsel]
    rwa [Shadows, hc, hl, hp]
  cases e with
  | keepalive | releaseLease | status | exit | write =>
    rw [Shadows, hasCall_quiet rfl]
    cases hst
    rwa [hasLease_quiet rfl, hasChild_quiet rfl]
  | _ => exact call hcon

theorem shadows_stay (hs : Scoped S H h w) (hf : FreshIds (⟨w, e, o, w'⟩ :: h))
    (hsep : Separated S ⟨w, e, o, w'⟩) (hst : Step H w e o w') (hcon : S.concerns H h ⟨w, e, o, w'⟩ = false)
    (hsh : Shadows S H ρ h w u) :
    Shadows S H ρ (⟨w, e, o, w'⟩ :: h) w' u := by
  refine shadows_unconcerned hst hcon ?_
  have unmine : ∀ c a p, e.call? = some c → w.calls.lookup c = some (.running a p) →
      Moment.selected S H ⟨w, e, o, w'⟩ = false → S.mine a = false ∧ S.hasCall H h c = false := by
    intro c a p he hc hsel
    rw [hs.running c a p hc]
    exact ⟨selected_call he hc ▸ hsel, selected_call he hc ▸ hsel⟩
  have unheld : ∀ c ch, w.owns (.call c) = some ch → S.hasCall H h c = false → S.hasChild H h ch = false :=
    fun c ch hown hc => (hs.child c ch hown).trans hc
  cases hst with
  | enter hc | reject hc => exact Shadow.setCall_unseen hsh (hs.idle _ hc)
  | @attach c a record id hc hfind =>
    obtain ⟨hmine, hcall⟩ := unmine _ _ _ rfl hc hcon
    have hkeep : S.keeps a.fp record = false := (hsep.attach c id a record rfl hc hfind).trans hmine
    have hold : ∀ r₀, w.state.fixtures.lookup a.fp = some r₀ → S.keeps a.fp r₀ = false := by
      intro r₀ hr₀
      rw [(findReusable_eq_some.1 hfind).1, Option.some.injEq] at hr₀
      rw [← hr₀, hkeep]
    have hstate := hsh.state.grant_unseen ((S.keeps_slots a.fp record (record.usedSlots + 1)).trans hkeep) hold
      (hs.unissued id (hf.not_issued rfl))
    exact (Shadow.setState hsh hstate).setCall_unseen hcall
  | miss hc | spawnFail hc | connect hc | connectFail hc | describe hc | create hc | cancelBare hc =>
    exact Shadow.setCall_unseen hsh (unmine _ _ _ rfl hc hcon).2
  | spawn hc hp | spawnPanic hc hp =>
    exact (Shadow.setProcess_unseen hsh (hs.unborn _ hp)).setCall_unseen (unmine _ _ _ rfl hc hcon).2
  | connectAgain => exact hsh
  | describeFail hc | createFail hc =>
    have hcall := (unmine _ _ _ rfl hc hcon).2
    exact (Shadow.dropPlugin_unseen hsh (unheld _ _ (owns_call hc) hcall)).setCall_unseen hcall
  | @insert c a plugin result id hc =>
    obtain ⟨hmine, hcall⟩ := unmine _ _ _ rfl hc hcon
    have hold : ∀ r₀, w.state.fixtures.lookup a.fp = some r₀ → S.keeps a.fp r₀ = false := fun r₀ hr₀ =>
      (hsep.insert a plugin result r₀ (stores?_eq_some.2 ⟨c, id, rfl, hc⟩) hr₀).trans hmine
    have hstate := hsh.state.grant_unseen ((S.keeps_new a plugin result).trans hmine) hold
      (hs.unissued id (hf.not_issued rfl))
    refine ((Shadow.setState hsh hstate).dropRecord_unseen ?_).setCall_unseen hcall
    exact fun r₀ hr₀ => (hs.record _ r₀ hr₀).trans (hold r₀ hr₀)
  | @cancelGuarded c a p plugin hc hp =>
    have hcall := (unmine _ _ _ rfl hc hcon).2
    refine (Shadow.dropPlugin_unseen hsh (unheld c plugin.child ?_ hcall)).setCall_unseen hcall
    rcases hp with rfl | rfl <;> exact owns_call hc
  | keepalive | status => exact hsh
  | @release leaseId =>
    refine Shadow.setState hsh (hsh.state.release_unseen hcon fun fp r hid hr => ?_)
    exact (hs.lease _ fp r hid hr).symm.trans hcon
  | exit => exact Shadow.setProcess_unseen hsh hcon
  | write => cases hcon

/-! ### What the scope sees -/

variable {c : CallId} {k : Call} {L : LeaseId → Bool} {C : Child → Bool}

/-- The call of a selected step takes the same phase on both sides. -/
theorem shadow_setCall (hsh : Shadow S ρ (S.hasCall H h) L C v v')
    (hsel : Moment.selected S H ⟨w, e, o, w'⟩ = true) (he : e.caller? = some c) :
    Shadow S ρ (S.hasCall H (⟨w, e, o, w'⟩ :: h)) L C (v.setCall c k) (v'.setCall c k) := by
  refine hsh.setCall ?_ fun c' hne => hasCall_other ?_
  · simp [hasCall_cons, hsel, he]
  · rw [he]
    exact fun heq => hne (Option.some.inj heq).symm

theorem shadows_setCall (hsh : Shadows S H ρ h v v') (hsel : Moment.selected S H ⟨w, e, o, w'⟩ = true)
    (he : e.caller? = some c) (hl : o.lease? = none) (hp : o.child? = none) :
    Shadows S H ρ (⟨w, e, o, w'⟩ :: h) (v.setCall c k) (v'.setCall c k) := by
  rw [Shadows, hasLease_quiet hl, hasChild_quiet hp]
  exact shadow_setCall hsh hsel he

/-- A process started by a selected step is started on both sides. -/
theorem shadow_setProcess {child : Child} {q : Process} (hsh : Shadows S H ρ h w u)
    (hsel : Moment.selected S H ⟨w, e, o, w'⟩ = true) (ho : o.child? = some child) :
    Shadow S ρ (S.hasCall H h) (S.hasLease H h) (S.hasChild H (⟨w, e, o, w'⟩ :: h))
      { w with processes := w.processes.insert child q }
      { u with processes := u.processes.insert child q } := by
  refine Shadow.setProcess hsh ?_ fun ch hne => hasChild_other ?_
  · simp [hasChild_cons, hsel, ho]
  · rw [ho]
    exact fun heq => hne (Option.some.inj heq).symm

/-- A lease granted by a selected step is granted on both sides. -/
theorem state_grant (hsh : StateShadow S ρ (S.hasLease H h) w.state u.state) (hρ : Function.Injective ρ)
    {fp : FixtureFingerprint} {r : FixtureRecord} {id : LeaseId} (hr : S.keeps fp r = true)
    (hsel : Moment.selected S H ⟨w, e, o, w'⟩ = true) (ho : o.lease? = some id) :
    StateShadow S ρ (S.hasLease H (⟨w, e, o, w'⟩ :: h))
      ⟨w.state.fixtures.insert fp r, w.state.leases.insert id ⟨fp⟩⟩
      ⟨u.state.fixtures.insert fp r, u.state.leases.insert (ρ id) ⟨fp⟩⟩ := by
  refine hsh.grant hρ hr ?_ fun j hne => hasLease_other ?_
  · simp [hasLease_cons, hsel, ho]
  · rw [ho]
    exact fun heq => hne (Option.some.inj heq).symm

/-- The reuse check finds the same in a shadow, if the record is on the call's side. -/
theorem StateShadow.findReusable {L : LeaseId → Bool} {st su : State} {a : Admitted}
    (hsh : StateShadow S ρ L st su)
    (hkeep : ∀ r, findReusable st a = some r → S.keeps a.fp r = true) :
    findReusable su a = findReusable st a := by
  have hrec : su.fixtures.lookup a.fp = (st.fixtures.lookup a.fp).filter (S.keeps a.fp) := hsh.fixtures a.fp
  cases hl : st.fixtures.lookup a.fp with
  | none => simp [RulesSystemtest.findReusable, hrec, hl]
  | some r =>
    by_cases hk : S.keeps a.fp r = true
    · simp [RulesSystemtest.findReusable, hrec, hl, Option.filter_some, hk]
    · cases hf : RulesSystemtest.findReusable st a with
      | some r' =>
        have hr' := (findReusable_eq_some.1 hf).1
        rw [hl, Option.some.injEq] at hr'
        exact absurd (hr' ▸ hkeep r' hf) hk
      | none => simp [RulesSystemtest.findReusable, hrec, hl, Option.filter_some, hk]

theorem StateShadow.keepalive {L : LeaseId → Bool} {st su : State} (hsh : StateShadow S ρ L st su)
    {leaseId : String} (hL : L ⟨leaseId⟩ = true) : keepalive su (ρ ⟨leaseId⟩).value = keepalive st leaseId := by
  have hlease : su.leases.lookup ⟨(ρ ⟨leaseId⟩).value⟩ = st.leases.lookup ⟨leaseId⟩ := hsh.lease_agrees hL
  rw [RulesSystemtest.keepalive, hlease, RulesSystemtest.keepalive]

theorem StateShadow.status {L : LeaseId → Bool} {st su : State} (hsh : StateShadow S ρ L st su)
    {leaseId : String} (hL : L ⟨leaseId⟩ = true) (hkeep : ∀ fp r, st.leases.lookup ⟨leaseId⟩ = some ⟨fp⟩ →
      st.fixtures.lookup fp = some r → S.keeps fp r = true) :
    status su (ρ ⟨leaseId⟩).value = status st leaseId := by
  have hlease : su.leases.lookup ⟨(ρ ⟨leaseId⟩).value⟩ = st.leases.lookup ⟨leaseId⟩ := hsh.lease_agrees hL
  rw [RulesSystemtest.status, hlease, RulesSystemtest.status]
  cases hl : st.leases.lookup ⟨leaseId⟩ with
  | none => rfl
  | some lease =>
    obtain ⟨fp⟩ := lease
    have hrec : su.fixtures.lookup fp = st.fixtures.lookup fp :=
      hsh.fixtures.agrees fun r hr => hkeep fp r hl hr
    simp only [hrec]

theorem attempt_congr {child : Child} (hp : u.processes.lookup child = w.processes.lookup child)
    (answer : DialAnswer) : u.attempt child answer = w.attempt child answer := by
  cases answer with
  | ok => rfl
  | err e pollError now => cases pollError <;> simp [World.attempt, hp]

theorem shadows_move (hρ : Function.Injective ρ) (hs : Scoped S H h w) (hsep : Separated S ⟨w, e, o, w'⟩)
    (hst : Step H w e o w') (hcon : S.concerns H h ⟨w, e, o, w'⟩ = true) (hsh : Shadows S H ρ h w u) :
    ∃ u', Step H u (e.rename ρ) (o.rename ρ) u' ∧ Shadows S H ρ (⟨w, e, o, w'⟩ :: h) w' u' := by
  have mine : ∀ c a p, e.call? = some c → w.calls.lookup c = some (.running a p) →
      Moment.selected S H ⟨w, e, o, w'⟩ = true → S.mine a = true ∧ u.calls.lookup c = some (.running a p) := by
    intro c a p he hc hsel
    have hmine : S.mine a = true := selected_call he hc ▸ hsel
    exact ⟨hmine, (Shadow.call hsh ((hs.running c a p hc).trans hmine)).trans hc⟩
  have held : ∀ c a ch, w.owns (.call c) = some ch → S.hasCall H h c = S.mine a → S.mine a = true →
      u.processes.lookup ch = w.processes.lookup ch := by
    intro c a ch hown hcall hmine
    exact Shadow.process hsh (((hs.child c ch hown).trans hcall).trans hmine)
  cases hst with
  | enter hc hv =>
    exact ⟨_, .enter (hsh.calls.absent hc) (hsh.files ▸ hv), shadows_setCall hsh hcon rfl rfl rfl⟩
  | reject hc hv =>
    exact ⟨_, .reject (hsh.calls.absent hc) (hsh.files ▸ hv), shadows_setCall hsh hcon rfl rfl rfl⟩
  | @attach c a record id hc hfind =>
    obtain ⟨hmine, hcu⟩ := mine _ _ _ rfl hc hcon
    have hkeep : S.keeps a.fp record = true := (hsep.attach c id a record rfl hc hfind).trans hmine
    have hfu : RulesSystemtest.findReusable u.state a = some record := by
      rw [hsh.state.findReusable, hfind]
      intro r hr
      rw [hfind, Option.some.injEq] at hr
      rw [← hr, hkeep]
    refine ⟨_, .attach hcu hfu, ?_⟩
    rw [Shadows, hasChild_quiet rfl]
    refine shadow_setCall (Shadow.setState hsh (state_grant hsh.state hρ ?_ hcon rfl)) hcon rfl
    rw [S.keeps_slots, hkeep]
  | @miss c a id hc hfind =>
    obtain ⟨hmine, hcu⟩ := mine _ _ _ rfl hc hcon
    have hfu : RulesSystemtest.findReusable u.state a = none := by
      rw [hsh.state.findReusable, hfind]
      intro r hr
      rw [hfind] at hr
      cases hr
    exact ⟨_, .miss hcu hfu, shadows_setCall hsh hcon rfl rfl rfl⟩
  | spawnFail hc hfail =>
    exact ⟨_, .spawnFail (mine _ _ _ rfl hc hcon).2 hfail, shadows_setCall hsh hcon rfl rfl rfl⟩
  | spawnPanic hc hp hf hd =>
    refine ⟨_, .spawnPanic (mine _ _ _ rfl hc hcon).2 (hsh.processes.absent hp) (hsh.files ▸ hf) hd, ?_⟩
    rw [Shadows, hasLease_quiet rfl]
    exact shadow_setCall (shadow_setProcess hsh hcon rfl) hcon rfl
  | spawn hc hp hf hd =>
    refine ⟨_, .spawn (mine _ _ _ rfl hc hcon).2 (hsh.processes.absent hp) (hsh.files ▸ hf) hd, ?_⟩
    rw [Shadows, hasLease_quiet rfl]
    exact shadow_setCall (shadow_setProcess hsh hcon rfl) hcon rfl
  | connect hc ht =>
    obtain ⟨hmine, hcu⟩ := mine _ _ _ rfl hc hcon
    have hp := held _ _ _ (owns_call hc) (hs.running _ _ _ hc) hmine
    exact ⟨_, .connect hcu (attempt_congr hp _ ▸ ht), shadows_setCall hsh hcon rfl rfl rfl⟩
  | connectFail hc ht =>
    obtain ⟨hmine, hcu⟩ := mine _ _ _ rfl hc hcon
    have hp := held _ _ _ (owns_call hc) (hs.running _ _ _ hc) hmine
    exact ⟨_, .connectFail hcu (attempt_congr hp _ ▸ ht), shadows_setCall hsh hcon rfl rfl rfl⟩
  | @connectAgain c a child socketPath deadline answer hc ht =>
    obtain ⟨hmine, hcu⟩ := mine _ _ _ rfl hc hcon
    have hp := held _ _ _ (owns_call hc) (hs.running _ _ _ hc) hmine
    refine ⟨_, .connectAgain hcu (attempt_congr hp _ ▸ ht), ?_⟩
    have hcall : S.hasCall H (⟨w, .tryConnect c answer, .silent, w⟩ :: h) = S.hasCall H h := by
      funext c'
      by_cases hne : c' = c
      · rw [hne, hs.hasCall_step hc (.connectAgain hc ht), hs.running c a _ hc]
      · exact hasCall_other fun heq => hne (Option.some.inj heq).symm
    rwa [Shadows, hcall, hasLease_quiet rfl, hasChild_quiet rfl]
  | describe hc => exact ⟨_, .describe (mine _ _ _ rfl hc hcon).2, shadows_setCall hsh hcon rfl rfl rfl⟩
  | describeFail hc =>
    exact ⟨_, .describeFail (mine _ _ _ rfl hc hcon).2,
      shadows_setCall (Shadow.dropPlugin hsh _) hcon rfl rfl rfl⟩
  | create hc hr => exact ⟨_, .create (mine _ _ _ rfl hc hcon).2 hr, shadows_setCall hsh hcon rfl rfl rfl⟩
  | createFail hc hr =>
    exact ⟨_, .createFail (mine _ _ _ rfl hc hcon).2 hr,
      shadows_setCall (Shadow.dropPlugin hsh _) hcon rfl rfl rfl⟩
  | @insert c a plugin result id hc =>
    obtain ⟨hmine, hcu⟩ := mine _ _ _ rfl hc hcon
    have hrec : u.state.fixtures.lookup a.fp = w.state.fixtures.lookup a.fp := hsh.state.fixtures.agrees
      fun r hr => (hsep.insert a plugin result r (stores?_eq_some.2 ⟨c, id, rfl, hc⟩) hr).trans hmine
    refine ⟨_, .insert hcu, ?_⟩
    rw [Shadows, hasChild_quiet rfl, hrec]
    have hstate := state_grant hsh.state hρ ((S.keeps_new a plugin result).trans hmine) hcon rfl
    exact shadow_setCall ((Shadow.setState hsh hstate).dropRecord _) hcon rfl
  | cancelBare hc => exact ⟨_, .cancelBare (mine _ _ _ rfl hc hcon).2, shadows_setCall hsh hcon rfl rfl rfl⟩
  | cancelGuarded hc hp =>
    exact ⟨_, .cancelGuarded (mine _ _ _ rfl hc hcon).2 hp,
      shadows_setCall (Shadow.dropPlugin hsh _) hcon rfl rfl rfl⟩
  | @keepalive leaseId =>
    refine ⟨u, ?_, ?_⟩
    · rw [Event.rename, Obs.rename, ← hsh.state.keepalive hcon]
      exact .keepalive
    · rwa [Shadows, hasCall_quiet rfl, hasLease_quiet rfl, hasChild_quiet rfl]
  | @release leaseId =>
    refine ⟨_, .release, ?_⟩
    rw [Shadows, hasCall_quiet rfl, hasLease_quiet rfl, hasChild_quiet rfl]
    exact Shadow.setState hsh (hsh.state.release hρ hcon)
  | @status leaseId =>
    refine ⟨u, ?_, ?_⟩
    · have hkeep : ∀ fp r, w.state.leases.lookup ⟨leaseId⟩ = some ⟨fp⟩ →
          w.state.fixtures.lookup fp = some r → S.keeps fp r = true :=
        fun fp r hid hr => (hs.lease _ fp r hid hr).symm.trans hcon
      rw [Event.rename, Obs.rename, ← hsh.state.status hcon hkeep]
      exact .status
    · rwa [Shadows, hasCall_quiet rfl, hasLease_quiet rfl, hasChild_quiet rfl]
  | @exit child status image killed hp =>
    refine ⟨_, .exit ((Shadow.process hsh hcon).trans hp), ?_⟩
    rw [Shadows, hasCall_quiet rfl, hasLease_quiet rfl, hasChild_quiet rfl]
    exact Shadow.setProcess hsh hcon fun _ _ => rfl
  | @write path contents =>
    refine ⟨_, .write, ?_⟩
    rw [Shadows, hasCall_quiet rfl, hasLease_quiet rfl, hasChild_quiet rfl]
    exact ⟨hsh.state, hsh.calls, hsh.processes, by rw [hsh.files]⟩

/-! ### Deletion -/

theorem shadows_start (files : FileSystem) : Shadows S H ρ [] (World.start files) (World.start files) where
  state := ⟨fun _ => rfl, fun _ => rfl, fun _ _ hl => by cases hl⟩
  calls _ := rfl
  processes _ := rfl
  files := rfl

/-- What concerns the scope is a run by itself. -/
theorem Runs.project (hr : Runs H h w) (hf : FreshIds h) (hsep : Along (fun _ t => Separated S t) h)
    (hρ : Function.Injective ρ) :
    ∃ h' u, Runs H h' u ∧ Shadows S H ρ h w u ∧ List.Forall₂ (Alike ρ) (kept (S.concerns H) h) h' := by
  refine Machine.Run.project (freshIds_hereditary.and (hereditary_along _)) ?init ?stay ?move hr ⟨hf, hsep⟩
  case init =>
    rintro _ ⟨files, rfl⟩
    exact ⟨_, ⟨files, rfl⟩, shadows_start files⟩
  case stay =>
    intro h w e o w' u hr ⟨hf, hsep⟩ hsh hst hcon
    have hs := Runs.scoped hr (freshIds_hereditary _ _ hf) hsep.2
    exact shadows_stay hs hf hsep.1 (step_cases hst) hcon hsh
  case move =>
    intro h w e o w' u hr ⟨hf, hsep⟩ hsh hst hcon
    have hs := Runs.scoped hr (freshIds_hereditary _ _ hf) hsep.2
    obtain ⟨u', hst', hsh'⟩ := shadows_move hρ hs hsep.1 (step_cases hst) hcon hsh
    exact ⟨_, _, u', step_of_step hst', ⟨hsh.files, rfl, rfl⟩, hsh'⟩

end RulesSystemtest
