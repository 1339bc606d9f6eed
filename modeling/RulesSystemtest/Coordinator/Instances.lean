import RulesSystemtest.Coordinator.History

/-! The instances of a run and what became of them. `Birth` says what one step does
to the plugin each future works with and to the stored records. From it, every
process serves at most one instance, every stored record is that of an instance
created under its fingerprint, and every outstanding lease is backed by an instance
that nothing but the record under its fingerprint can still hold. -/

namespace RulesSystemtest

open Library

def Obs.instance? : Obs → Option Instance
  | .created i => some i
  | _ => none

/-- The instances created in a run. -/
def instances (h : History) : List Instance := h.filterMap fun t => t.obs.instance?

/-- The record an instance is first stored as. -/
def Instance.record (i : Instance) : FixtureRecord := newRecord i.admitted ⟨i.child⟩ i.result

/-- The lease was granted on this instance, with its outputs. -/
structure Instance.Backs (i : Instance) (g : Grant) : Prop where
  child : i.child = g.child
  outputs : i.result.outputs = g.outputs
  fp : i.admitted.fp = g.admitted.fp

/-- The plugin a future works with, and the result it got from it. -/
structure Work where
  admitted : Admitted
  child : Child
  result : Option FixtureResult

def Call.work? : Call → Option Work
  | .running a (.connecting child _ _) => some ⟨a, child, none⟩
  | .running a (.connected plugin) | .running a (.described plugin) => some ⟨a, plugin.child, none⟩
  | .running a (.created plugin result) => some ⟨a, plugin.child, some result⟩
  | _ => none

def World.work (w : World) (c : CallId) : Option Work := (w.calls.lookup c).bind Call.work?

variable {H : Host} {h : History} {w w' : World} {e : Event} {o : Obs}

theorem instances_none (ho : o.instance? = none) : instances (⟨w, e, o, w'⟩ :: h) = instances h := by
  simp [instances, ho]

theorem instances_some {i : Instance} (ho : o.instance? = some i) :
    instances (⟨w, e, o, w'⟩ :: h) = i :: instances h := by
  simp [instances, ho]

theorem mem_instances_cons {i : Instance} (hi : i ∈ instances h) (t : Moment) : i ∈ instances (t :: h) :=
  ((List.sublist_cons_self t h).filterMap _).subset hi

theorem work_congr (hc : w'.calls = w.calls) : w'.work = w.work := by
  funext c
  simp [World.work, hc]

theorem work_setCall (c : CallId) (k : Call) :
    (w.setCall c k).work = Function.update w.work c k.work? := by
  funext c'
  by_cases hc : c' = c
  · subst hc
    simp [World.work]
  · simp [World.work, Function.update_of_ne hc, Finmap.lookup_insert_of_ne _ hc]

theorem work_call {c : CallId} {k : Call} (hc : w.calls.lookup c = some k) : w.work c = k.work? := by
  simp [World.work, hc]

theorem child?_eq_work (k : Call) : k.child? = k.work?.map (·.child) := by
  cases k with
  | running a p => cases p <;> rfl
  | finished => rfl

theorem owns_of_work {c : CallId} {x : Work} (hx : w.work c = some x) : w.owns (.call c) = some x.child := by
  obtain ⟨k, hc, hk⟩ := Option.bind_eq_some_iff.1 hx
  simp [World.owns, hc, child?_eq_work, hk]

/-! ### What a step does to work and records -/

/-- Every call works with the plugin it had, or with none any more. -/
def WorkShrinks (w w' : World) : Prop := ∀ c x, w'.work c = some x → w.work c = some x

/-- Records keep everything but their slots. -/
def RecordsKept (w w' : World) : Prop :=
  ∀ fp r', w'.state.fixtures.lookup fp = some r' →
    ∃ r, w.state.fixtures.lookup fp = some r ∧ r' = { r with usedSlots := r'.usedSlots }

theorem workShrinks_of_eq (hc : w'.calls = w.calls) : WorkShrinks w w' := by
  intro c x hx
  rwa [work_congr hc] at hx

theorem workShrinks_setCall {u : World} {c : CallId} {k : Call} (hu : u.calls = w.calls)
    (hk : k.work? = none ∨ k.work? = w.work c) : WorkShrinks w (u.setCall c k) := by
  intro c' x hx
  rw [work_setCall, work_congr hu] at hx
  by_cases hc : c' = c
  · subst hc
    rw [Function.update_self] at hx
    rcases hk with hk | hk
    · rw [hk] at hx
      cases hx
    · rwa [← hk]
  · rwa [Function.update_of_ne hc] at hx

theorem recordsKept_of_eq (hs : w'.state = w.state) : RecordsKept w w' := by
  intro fp r hr
  rw [hs] at hr
  exact ⟨r, hr, rfl⟩

inductive Birth (w : World) (o : Obs) (w' : World) : Prop where
  | quiet (hw : WorkShrinks w w') (hf : RecordsKept w w') (ho : o.instance? = none)
  | spawn (c : CallId) (a : Admitted) (child : Child) (hn : w.processes.lookup child = none)
      (hw : w'.work = Function.update w.work c (some ⟨a, child, none⟩)) (hs : w'.state = w.state)
      (ho : o.instance? = none)
  | create (i : Instance) (hc : w.work i.call = some ⟨i.admitted, i.child, none⟩)
      (hw : w'.work = Function.update w.work i.call (some ⟨i.admitted, i.child, some i.result⟩))
      (hs : w'.state = w.state) (ho : o.instance? = some i)
  | insert (c : CallId) (a : Admitted) (child : Child) (result : FixtureResult)
      (hc : w.work c = some ⟨a, child, some result⟩) (hw : WorkShrinks w w')
      (hf : w'.state.fixtures = w.state.fixtures.insert a.fp (newRecord a ⟨child⟩ result))
      (ho : o.instance? = none)

theorem step_birth (h : Step H w e o w') : Birth w o w' := by
  cases h with
  | enter | reject | miss | spawnFail | spawnPanic | connectFail | cancelBare =>
    exact .quiet (workShrinks_setCall rfl (.inl rfl)) (recordsKept_of_eq rfl) rfl
  | describeFail | createFail | cancelGuarded =>
    exact .quiet (workShrinks_setCall (by simp) (.inl rfl)) (recordsKept_of_eq (by simp)) rfl
  | connectAgain | keepalive | status | exit | write =>
    exact .quiet (workShrinks_of_eq rfl) (recordsKept_of_eq rfl) rfl
  | connect hc | describe hc =>
    exact .quiet (workShrinks_setCall rfl (.inr (work_call hc).symm)) (recordsKept_of_eq rfl) rfl
  | @attach c a record id hc hf =>
    refine .quiet (workShrinks_setCall rfl (.inl rfl)) (fun fp r' hr => ?_) rfl
    rw [setCall_state, attach_fixtures] at hr
    split at hr
    · next hfp =>
      obtain rfl := Option.some.inj hr
      exact ⟨record, hfp ▸ (findReusable_eq_some.1 hf).1, rfl⟩
    · exact ⟨r', hr, rfl⟩
  | @spawn c a uuid child now deadline image hc hp hf hd =>
    exact .spawn c a child hp (by rw [work_setCall]; rfl) rfl rfl
  | create hc hr => exact .create _ (work_call hc) (work_setCall _ _) rfl rfl
  | @insert c a plugin result id hc =>
    exact .insert c a plugin.child result (work_call hc) (workShrinks_setCall (by simp) (.inl rfl))
      (by simp [takeLeaseInsert]) rfl
  | @release leaseId =>
    refine .quiet (workShrinks_of_eq rfl) (fun fp r' hr => ?_) rfl
    rw [release_fixtures] at hr
    split at hr
    · obtain ⟨r, hl, rfl⟩ := Option.map_eq_some_iff.1 hr
      exact ⟨r, hl, rfl⟩
    · exact ⟨r', hr, rfl⟩

/-! ### Provenance -/

structure Provenance (h : History) (w : World) : Prop where
  /-- No process serves two instances. -/
  distinct : ((instances h).map (·.child)).Nodup
  known : ∀ i ∈ instances h, ∃ p, w.processes.lookup i.child = some p
  unborn : ∀ c a child, w.work c = some ⟨a, child, none⟩ → ∀ i ∈ instances h, i.child ≠ child
  born : ∀ c a child result, w.work c = some ⟨a, child, some result⟩ →
    ∃ i ∈ instances h, i.call = c ∧ i.admitted = a ∧ i.child = child ∧ i.result = result
  stored : ∀ fp r, w.state.fixtures.lookup fp = some r →
    ∃ i ∈ instances h, i.admitted.fp = fp ∧ r = { i.record with usedSlots := r.usedSlots }

theorem provenance_start (files : FileSystem) : Provenance [] (World.start files) where
  distinct := List.nodup_nil
  known i hi := by cases hi
  unborn c a child hc := by simp [World.start, World.work] at hc
  born c a child result hc := by simp [World.start, World.work] at hc
  stored fp r hr := by simp [World.start] at hr

/-- The instances stay known, whatever a step does to the processes. -/
theorem Provenance.known_step (hp : Provenance h w) (hst : Step H w e o w') {i : Instance}
    (hi : i ∈ instances h) : ∃ p, w'.processes.lookup i.child = some p := by
  obtain ⟨p, hl⟩ := hp.known i hi
  obtain ⟨K, hK⟩ := (step_custody hst).evolves
  obtain ⟨p', hl', -⟩ := hK.keep i.child p hl
  exact ⟨p', hl'⟩

/-- Records that were kept are still those of their instances. -/
theorem Provenance.stored_kept (hp : Provenance h w) (hf : RecordsKept w w') {fp : FixtureFingerprint}
    {r : FixtureRecord} (hr : w'.state.fixtures.lookup fp = some r) :
    ∃ i ∈ instances h, i.admitted.fp = fp ∧ r = { i.record with usedSlots := r.usedSlots } := by
  obtain ⟨r₀, hr₀, he⟩ := hf fp r hr
  obtain ⟨i, hi, hfp, hi₀⟩ := hp.stored fp r₀ hr₀
  refine ⟨i, hi, hfp, ?_⟩
  rw [he, hi₀]

/-- A child just spawned is none of those known. -/
theorem provenance_spawn (hp : Provenance h w) (hst : Step H w e o w') {c : CallId} {a : Admitted} {child : Child}
    (hn : w.processes.lookup child = none) (hw : w'.work = Function.update w.work c (some ⟨a, child, none⟩))
    (hs : w'.state = w.state) (ho : o.instance? = none) : Provenance (⟨w, e, o, w'⟩ :: h) w' := by
  have hi : instances (⟨w, e, o, w'⟩ :: h) = instances h := instances_none ho
  refine ⟨hi ▸ hp.distinct, fun i hm => hp.known_step hst (hi ▸ hm), ?_, ?_,
    fun fp r hr => hi ▸ hp.stored_kept (recordsKept_of_eq hs) hr⟩
  · intro c' a' child' hc' i hm
    rw [hi] at hm
    rw [hw] at hc'
    by_cases hcc : c' = c
    · subst hcc
      rw [Function.update_self, Option.some.injEq, Work.mk.injEq] at hc'
      obtain ⟨p, hl⟩ := hp.known i hm
      rintro rfl
      rw [← hc'.2.1, hn] at hl
      cases hl
    · rw [Function.update_of_ne hcc] at hc'
      exact hp.unborn c' a' child' hc' i hm
  · intro c' a' child' result hc'
    rw [hi]
    rw [hw] at hc'
    by_cases hcc : c' = c
    · subst hcc
      simp at hc'
    · rw [Function.update_of_ne hcc] at hc'
      exact hp.born c' a' child' result hc'

/-- The new instance has the child of its call, which no other call holds. -/
theorem provenance_create (hg : Guarded w) (hp : Provenance h w) (hst : Step H w e o w') {i : Instance}
    (hc : w.work i.call = some ⟨i.admitted, i.child, none⟩)
    (hw : w'.work = Function.update w.work i.call (some ⟨i.admitted, i.child, some i.result⟩))
    (hs : w'.state = w.state) (ho : o.instance? = some i) : Provenance (⟨w, e, o, w'⟩ :: h) w' := by
  have hi : instances (⟨w, e, o, w'⟩ :: h) = i :: instances h := instances_some ho
  have hfresh := hp.unborn _ _ _ hc
  refine ⟨?_, ?_, ?_, ?_, ?_⟩
  · rw [hi, List.map_cons, List.nodup_cons, List.mem_map, not_exists]
    exact ⟨fun j hj => hfresh j hj.1 hj.2, hp.distinct⟩
  · intro j hj
    rw [hi] at hj
    rcases List.mem_cons.1 hj with rfl | hj
    · obtain ⟨p, hl, -⟩ := hg.alive _ _ (owns_of_work hc)
      obtain ⟨K, hK⟩ := (step_custody hst).evolves
      obtain ⟨p', hl', -⟩ := hK.keep _ p hl
      exact ⟨p', hl'⟩
    · exact hp.known_step hst hj
  · intro c a child hc' j hj
    rw [hw] at hc'
    by_cases hcc : c = i.call
    · subst hcc
      simp at hc'
    · rw [Function.update_of_ne hcc] at hc'
      rw [hi] at hj
      rcases List.mem_cons.1 hj with rfl | hj
      · intro hch
        have hsame := hg.exclusive _ _ _ (owns_of_work hc') (hch ▸ owns_of_work hc)
        exact hcc (by simpa using hsame)
      · exact hp.unborn c a child hc' j hj
  · intro c a child result hc'
    rw [hw] at hc'
    rw [hi]
    by_cases hcc : c = i.call
    · subst hcc
      rw [Function.update_self, Option.some.injEq, Work.mk.injEq, Option.some.injEq] at hc'
      obtain ⟨ha, hch, hres⟩ := hc'
      exact ⟨i, List.mem_cons_self, rfl, ha, hch, hres⟩
    · rw [Function.update_of_ne hcc] at hc'
      obtain ⟨j, hj, hborn⟩ := hp.born c a child result hc'
      exact ⟨j, List.mem_cons_of_mem _ hj, hborn⟩
  · intro fp r hr
    rw [hi]
    obtain ⟨j, hj, hstored⟩ := hp.stored_kept (recordsKept_of_eq hs) hr
    exact ⟨j, List.mem_cons_of_mem _ hj, hstored⟩

theorem provenance_step (hg : Guarded w) (hp : Provenance h w) (hst : Step H w e o w') :
    Provenance (⟨w, e, o, w'⟩ :: h) w' := by
  cases step_birth hst with
  | quiet hw hf ho =>
    have hi : instances (⟨w, e, o, w'⟩ :: h) = instances h := instances_none ho
    exact ⟨hi ▸ hp.distinct, fun i hm => hp.known_step hst (hi ▸ hm),
      fun c a child hc => hi ▸ hp.unborn c a child (hw c _ hc),
      fun c a child result hc => hi ▸ hp.born c a child result (hw c _ hc),
      fun fp r hr => hi ▸ hp.stored_kept hf hr⟩
  | spawn c a child hn hw hs ho => exact provenance_spawn hp hst hn hw hs ho
  | create i hc hw hs ho => exact provenance_create hg hp hst hc hw hs ho
  | insert c a child result hc hw hf ho =>
    have hi : instances (⟨w, e, o, w'⟩ :: h) = instances h := instances_none ho
    refine ⟨hi ▸ hp.distinct, fun i hm => hp.known_step hst (hi ▸ hm),
      fun c a child hc => hi ▸ hp.unborn c a child (hw c _ hc),
      fun c a child result hc => hi ▸ hp.born c a child result (hw c _ hc), ?_⟩
    intro fp r hr
    rw [hi]
    rw [hf, HashMap.lookup_insert] at hr
    split at hr
    · next hfp =>
      obtain ⟨i, hm, rfl, rfl, rfl, rfl⟩ := hp.born c a child result hc
      obtain rfl := Option.some.inj hr
      exact ⟨i, hm, hfp.symm, rfl⟩
    · exact hp.stored fp r hr

theorem Runs.provenance (hr : Runs H h w) : Provenance h w := by
  refine Machine.Run.invariant hereditary_true (I := Provenance) ?_ ?_ hr trivial
  · rintro _ ⟨files, rfl⟩
    exact provenance_start files
  · intro h w e o w' hr _ hp hst
    exact provenance_step (Runs.guarded hr) hp (step_cases hst)

theorem Provenance.eq_of_child (hp : Provenance h w) {i j : Instance} (hi : i ∈ instances h)
    (hj : j ∈ instances h) (hc : i.child = j.child) : i = j :=
  List.inj_on_of_nodup_map hp.distinct hi hj hc

/-- `status` shows nothing but outputs of instances. -/
theorem Runs.status_outputs (hr : Runs H h w) {leaseId : String} {resp : StatusResponse}
    (hs : status w.state leaseId = .ok resp) :
    resp.outputs = ∅ ∨ ∃ i ∈ instances h, resp.outputs = i.result.outputs := by
  cases hl : w.state.leases.lookup ⟨leaseId⟩ with
  | none =>
    rw [status_unknown hl] at hs
    cases hs
  | some lease =>
    cases hrec : w.state.fixtures.lookup lease.fingerprint with
    | none =>
      simp only [status, hl, hrec, Except.ok.injEq] at hs
      exact .inl (by rw [← hs]; rfl)
    | some r =>
      rw [status_known hl hrec, Except.ok.injEq] at hs
      obtain ⟨i, hi, -, hri⟩ := hr.provenance.stored _ r hrec
      refine .inr ⟨i, hi, ?_⟩
      rw [← hs, hri]
      rfl

/-! ### Outstanding leases -/

structure Lent (h : History) (w : World) : Prop where
  backed : ∀ id g, Outstanding h id g → ∃ i ∈ instances h, i.Backs g
  owner : ∀ id g, Outstanding h id g → ∀ x, w.owns x = some g.child → x = .record g.admitted.fp

theorem lent_start (files : FileSystem) : Lent [] (World.start files) where
  backed id g hg := by cases hg
  owner id g hg := by cases hg

/-- A lease is granted on an instance whose process the record under the fingerprint
holds from then on. -/
theorem grant_backed (hp : Provenance h w) (hst : Step H w e o w') {id : LeaseId} {g : Grant}
    (ho : o.entry? = some (.grant id g)) :
    (∃ i ∈ instances h, i.Backs g) ∧ w'.owns (.record g.admitted.fp) = some g.child := by
  cases hst with
  | @attach c a record id hc hf =>
    obtain ⟨-, rfl⟩ := Ledger.Entry.grant.inj (Option.some.inj ho)
    obtain ⟨i, hi, hfp, hrec⟩ := hp.stored a.fp record (findReusable_eq_some.1 hf).1
    refine ⟨⟨i, hi, ?_, ?_, hfp⟩, ?_⟩
    · rw [hrec]
      rfl
    · rw [hrec]
      rfl
    · simp [World.owns, attach_fixtures]
  | @insert c a plugin result id hc =>
    obtain ⟨-, rfl⟩ := Ledger.Entry.grant.inj (Option.some.inj ho)
    obtain ⟨i, hi, -, rfl, hchild, rfl⟩ := hp.born _ _ _ _ (work_call hc)
    refine ⟨⟨i, hi, hchild, rfl, rfl⟩, ?_⟩
    simp [World.owns, insert_fixtures, newRecord]
  | _ => cases ho

theorem lent_step (hp : Provenance h w) (hl : Lent h w) (hg' : Guarded w') (hst : Step H w e o w') :
    Lent (⟨w, e, o, w'⟩ :: h) w' := by
  have old : ∀ id g, Outstanding h id g → (∃ i ∈ instances (⟨w, e, o, w'⟩ :: h), i.Backs g) ∧
      ∀ x, w'.owns x = some g.child → x = .record g.admitted.fp := by
    intro id g hg
    obtain ⟨i, hi, hb⟩ := hl.backed id g hg
    refine ⟨⟨i, mem_instances_cons hi _, hb⟩, fun x hx => ?_⟩
    obtain ⟨p, hk⟩ := hp.known i hi
    rcases (step_custody hst).owner_was (hb.child ▸ hk) hx with hx | ⟨c, hc⟩
    · exact hl.owner id g hg x hx
    · exact absurd (hl.owner id g hg _ hc) (by simp)
  have all : ∀ id g, Outstanding (⟨w, e, o, w'⟩ :: h) id g →
      (∃ i ∈ instances (⟨w, e, o, w'⟩ :: h), i.Backs g) ∧
      ∀ x, w'.owns x = some g.child → x = .record g.admitted.fp := by
    intro id g hg
    rcases outstanding_step hg with ho | hg
    · obtain ⟨⟨i, hi, hb⟩, howns⟩ := grant_backed hp hst ho
      exact ⟨⟨i, mem_instances_cons hi _, hb⟩, fun x hx => hg'.exclusive _ _ _ hx howns⟩
    · exact old id g hg
  exact ⟨fun id g hg => (all id g hg).1, fun id g hg => (all id g hg).2⟩

theorem Runs.lent (hr : Runs H h w) : Lent h w := by
  refine Machine.Run.invariant hereditary_true (I := Lent) ?_ ?_ hr trivial
  · rintro _ ⟨files, rfl⟩
    exact lent_start files
  · intro h w e o w' hr _ hl hst
    exact lent_step (Runs.provenance hr) hl (Runs.guarded (.step hr hst)) (step_cases hst)

end RulesSystemtest
