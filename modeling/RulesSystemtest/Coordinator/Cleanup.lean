import RulesSystemtest.Coordinator.Instances

/-! What a `take_lease` that does not succeed leaves behind. It changes neither map.
Once connected, its plugin process is killed with the guard. Inside the connect loop
there is no guard yet, so the process outlives a call that gives it up there, unless
it has exited by itself. -/

namespace RulesSystemtest

open Library

variable {H : Host} {h : History} {w w' : World} {e : Event} {o : Obs}

/-- The step is one of the call's. -/
def Moment.Moves (t : Moment) (c : CallId) : Prop :=
  t.event.call? = some c ∨ ∃ req, t.event = .takeLease c req

/-- The call answered with an error, or its future was dropped. -/
def Moment.Fails (t : Moment) (c : CallId) : Prop := (∃ s, t.obs = .refused c s) ∨ t.obs = .cancelled c

/-- The process has exited or was sent a kill. -/
def Disposed (w : World) (child : Child) : Prop :=
  ∃ p, w.processes.lookup child = some p ∧ (p.exited.isSome = true ∨ p.killed = true)

/-- No failed call has changed the maps, or left a process it started running. -/
def LeavesNothing (h : History) (w : World) : Prop :=
  ∀ c, (∃ t ∈ h, t.Fails c) → (∀ t ∈ h, t.Moves c → t.post.state = t.pre.state) ∧
    ∀ t ∈ h, ∀ child, t.obs = .started c child → Disposed w child

/-! ### Giving up in the connect loop -/

/-- The child and the deadline of the call in the connect loop that a step moves. -/
def Moment.connecting? (t : Moment) : Option (Child × Instant) :=
  match t.event.call? with
  | some c =>
    match t.pre.calls.lookup c with
    | some (.running _ (.connecting child _ deadline)) => some (child, deadline)
    | _ => none
  | none => none

/-- The future is dropped, the poll of the child fails, or the deadline has passed. -/
def Event.givesUp (deadline : Instant) : Event → Bool
  | .cancel _ => true
  | .tryConnect _ (.err _ (some _) _) => true
  | .tryConnect _ (.err _ none now) => deadline.le now
  | _ => false

/-- A call is given up in the connect loop while its plugin process runs. -/
def Leaks (t : Moment) : Prop :=
  ∃ x ∈ t.connecting?, t.event.givesUp x.2 = true ∧ (t.pre.processes.lookup x.1).bind (·.exited) = none

instance (t : Moment) : Decidable (Leaks t) :=
  decidable_of_iff (t.connecting?.any fun x =>
      t.event.givesUp x.2 = true ∧ (t.pre.processes.lookup x.1).bind (·.exited) = none) <| by
    simp [Leaks, Option.any_eq_true]

theorem connecting?_eq_some {t : Moment} {child : Child} {deadline : Instant} :
    t.connecting? = some (child, deadline) ↔ ∃ c a socketPath, t.event.call? = some c ∧
      t.pre.calls.lookup c = some (.running a (.connecting child socketPath deadline)) := by
  unfold Moment.connecting?
  constructor
  · intro h
    split at h
    · next c he =>
      split at h
      · next a child' socketPath deadline' hc =>
        obtain ⟨rfl, rfl⟩ : child' = child ∧ deadline' = deadline := by simpa using h
        exact ⟨c, a, socketPath, he, hc⟩
      · cases h
    · cases h
  · rintro ⟨c, a, socketPath, he, hc⟩
    simp only [he, hc]

theorem exited_of_not_leaks {t : Moment} (hl : ¬ Leaks t) {child : Child} {deadline : Instant}
    (hx : t.connecting? = some (child, deadline)) (hg : t.event.givesUp deadline = true) :
    ∃ status, (t.pre.processes.lookup child).bind (·.exited) = some status := by
  cases hs : (t.pre.processes.lookup child).bind (·.exited) with
  | some status => exact ⟨status, rfl⟩
  | none => exact absurd ⟨_, hx, hg, hs⟩ hl

/-- A failed turn of the loop means that the child exited, or that it is given up. -/
theorem connectTurn_failed {child : Child} {socketPath err : String} {deadline : Instant} {answer : DialAnswer}
    {c : CallId} (h : connectTurn socketPath deadline (w.attempt child answer) = .failed err) :
    (∃ status, (w.processes.lookup child).bind (·.exited) = some status) ∨
      (Event.tryConnect c answer).givesUp deadline = true := by
  cases answer with
  | ok => cases h
  | err dialError pollError now =>
    cases pollError with
    | some pollError => exact .inr rfl
    | none =>
      cases hx : (w.processes.lookup child).bind (·.exited) with
      | some status => exact .inl ⟨status, rfl⟩
      | none =>
        simp only [World.attempt, hx, connectTurn] at h
        split at h
        · next hle => exact .inr hle
        · cases h

theorem connectTurn_givesUp {child : Child} {socketPath : String} {deadline : Instant} {answer : DialAnswer}
    {c : CallId} (hx : (w.processes.lookup child).bind (·.exited) = none)
    (hg : (Event.tryConnect c answer).givesUp deadline = true) :
    ∃ err, connectTurn socketPath deadline (w.attempt child answer) = .failed err := by
  cases answer with
  | ok => cases hg
  | err dialError pollError now =>
    cases pollError with
    | some pollError => exact ⟨_, rfl⟩
    | none =>
      refine ⟨context "timed out connecting to plugin socket" dialError, ?_⟩
      simp only [World.attempt, hx, connectTurn]
      exact if_pos hg

/-! ### How calls end -/

def Moment.Succeeds (t : Moment) (c : CallId) : Prop := ∃ id g resp, t.obs = .granted id g resp ∧ g.call = c

/-- A call that ends had not ended before. -/
theorem ends_once (hst : Step H w e o w') {c : CallId}
    (hend : Moment.Fails ⟨w, e, o, w'⟩ c ∨ Moment.Succeeds ⟨w, e, o, w'⟩ c) :
    w.calls.lookup c ≠ some .finished ∧ w'.calls.lookup c = some .finished := by
  unfold Moment.Fails Moment.Succeeds at hend
  cases hst with
  | reject hc | attach hc | spawnFail hc | connectFail hc | describeFail hc | createFail hc | insert hc
  | cancelBare hc | cancelGuarded hc =>
    obtain rfl : _ = c := by simpa using hend
    simp [hc]
  | _ => simp at hend

/-- A step of a call leaves the state alone, unless the call succeeds with it. -/
theorem state_unchanged (hst : Step H w e o w') {c : CallId} (hm : Moment.Moves ⟨w, e, o, w'⟩ c) :
    w'.state = w.state ∨ Moment.Succeeds ⟨w, e, o, w'⟩ c := by
  unfold Moment.Moves at hm
  cases hst with
  | attach hc hf | insert hc =>
    obtain rfl : _ = c := by simpa [Event.call?] using hm
    exact .inr ⟨_, _, _, rfl, rfl⟩
  | release => simp [Event.call?] at hm
  | _ => exact .inl (by simp)

/-- Calls end once, and what a call holds it has started. -/
structure Ended (h : History) (w : World) : Prop where
  started : ∀ c child, w.owns (.call c) = some child → ∃ t ∈ h, t.obs = .started c child
  ended : ∀ t ∈ h, ∀ c, t.Fails c ∨ t.Succeeds c → w.calls.lookup c = some .finished
  once : ∀ t ∈ h, ∀ u ∈ h, ∀ c, t.Fails c → ¬ u.Succeeds c

theorem ended_start (files : FileSystem) : Ended [] (World.start files) where
  started c child hc := by simp [World.start, World.owns] at hc
  ended t ht := by cases ht
  once t ht := by cases ht

theorem ended_step (he : Ended h w) (hst : Step H w e o w') : Ended (⟨w, e, o, w'⟩ :: h) w' := by
  constructor
  · intro c child hc
    rcases holds_started hst hc with hown | hobs
    · obtain ⟨t, ht, hobs⟩ := he.started c child hown
      exact ⟨t, List.mem_cons_of_mem _ ht, hobs⟩
    · exact ⟨_, List.mem_cons_self, hobs⟩
  · intro t ht c hend
    rcases List.mem_cons.1 ht with rfl | ht
    · exact (ends_once hst hend).2
    · exact (hst.finished (he.ended t ht c hend)).2
  · intro t ht u hu c hf hs
    rcases List.mem_cons.1 ht with rfl | ht <;> rcases List.mem_cons.1 hu with rfl | hu
    · obtain ⟨id, g, resp, ho, -⟩ := hs
      rcases hf with ⟨s, hf⟩ | hf <;> rw [ho] at hf <;> cases hf
    · exact (ends_once hst (.inl hf)).1 (he.ended u hu c (.inr hs))
    · exact (ends_once hst (.inr hs)).1 (he.ended t ht c (.inl hf))
    · exact he.once t ht u hu c hf hs

theorem Runs.ended (hr : Runs H h w) : Ended h w := by
  refine Machine.Run.invariant hereditary_true (I := Ended) ?_ ?_ hr trivial
  · rintro _ ⟨files, rfl⟩
    exact ended_start files
  · intro h w e o w' _ _ he hst
    exact ended_step he (step_cases hst)

/-! ### What becomes of the child of a call -/

theorem disposed_of_exited {child : Child} {status : String} (hp : w'.processes = w.processes)
    (hx : (w.processes.lookup child).bind (·.exited) = some status) : Disposed w' child := by
  obtain ⟨p, hl, hs⟩ := Option.bind_eq_some_iff.1 hx
  exact ⟨p, by rw [hp, hl], .inl (by simp [hs])⟩

theorem Disposed.evolves {K : Child → Prop} {child : Child} (hd : Disposed w child) (hev : Evolves w w' K) :
    Disposed w' child := by
  obtain ⟨p, hl, hd⟩ := hd
  obtain ⟨p', hl', -, hkilled, hexited⟩ := hev.keep child p hl
  refine ⟨p', hl', hd.imp (fun hx => ?_) (fun hk => hkilled.2 (.inl hk))⟩
  rwa [hexited hx]

theorem disposed_dropPlugin {u : World} {plugin : PluginProcess} {p : Process}
    (hl : u.processes.lookup plugin.child = some p) : Disposed (u.dropPlugin plugin) plugin.child := by
  refine ⟨{ p with killed := true }, ?_, .inr rfl⟩
  rw [dropPlugin_processes, if_pos rfl, hl]
  rfl

/-- The child of a call stays with it, goes into a record when the call succeeds, or
is disposed of, unless the call is given up with its process running. -/
theorem child_fate (hg : Guarded w) (hst : Step H w e o w') {c : CallId} {child : Child}
    (hown : w.owns (.call c) = some child) :
    w'.owns (.call c) = some child ∨ Moment.Succeeds ⟨w, e, o, w'⟩ c ∨
      (¬ Leaks ⟨w, e, o, w'⟩ → Disposed w' child) := by
  by_cases he : e.call? = some c
  · obtain ⟨p, halive, -⟩ := hg.alive _ _ hown
    cases hst with
    | enter | reject | keepalive | release | status | exit | write => cases he
    | connectAgain => exact .inl hown
    | attach hc | miss hc | spawnFail hc | spawnPanic hc | spawn hc =>
      obtain rfl := Option.some.inj he
      rw [owns_call hc] at hown
      cases hown
    | connect hc | describe hc | create hc =>
      obtain rfl := Option.some.inj he
      refine .inl ?_
      rw [owns_call_setCall (w := w) (by rfl), if_pos rfl, ← hown, owns_call hc]
      rfl
    | insert hc =>
      obtain rfl := Option.some.inj he
      exact .inr (.inl ⟨_, _, _, rfl, rfl⟩)
    | describeFail hc | createFail hc =>
      obtain rfl := Option.some.inj he
      obtain rfl := Option.some.inj ((owns_call hc).symm.trans hown)
      exact .inr (.inr fun _ => disposed_dropPlugin halive)
    | cancelGuarded hc hp =>
      obtain rfl := Option.some.inj he
      obtain rfl : _ = child := by rcases hp with rfl | rfl <;> exact Option.some.inj ((owns_call hc).symm.trans hown)
      exact .inr (.inr fun _ => disposed_dropPlugin halive)
    | connectFail hc ht =>
      obtain rfl := Option.some.inj he
      obtain rfl := Option.some.inj ((owns_call hc).symm.trans hown)
      refine .inr (.inr fun hleak => ?_)
      rcases connectTurn_failed ht with ⟨status, hx⟩ | hgives
      · exact disposed_of_exited rfl hx
      · obtain ⟨status, hx⟩ := exited_of_not_leaks hleak (connecting?_eq_some.2 ⟨_, _, _, rfl, hc⟩) hgives
        exact disposed_of_exited rfl hx
    | cancelBare hc =>
      obtain rfl := Option.some.inj he
      obtain rfl := Option.some.inj ((owns_call hc).symm.trans hown)
      refine .inr (.inr fun hleak => ?_)
      obtain ⟨status, hx⟩ := exited_of_not_leaks hleak (connecting?_eq_some.2 ⟨_, _, _, rfl, hc⟩) rfl
      exact disposed_of_exited rfl hx
  · have ht : ∀ req, e ≠ .takeLease c req := by
      rintro req rfl
      cases hst with
      | enter hc | reject hc => simp [World.owns, hc] at hown
    refine .inl ?_
    rw [World.owns, hst.other_calls he ht]
    exact hown

/-- A call that is given up so leaves its process running. -/
theorem leaks_running (hg : Guarded w) (hst : Step H w e o w') (hleak : Leaks ⟨w, e, o, w'⟩) :
    ∃ c child, w.owns (.call c) = some child ∧ Moment.Fails ⟨w, e, o, w'⟩ c ∧ ¬ Disposed w' child := by
  obtain ⟨⟨child, deadline⟩, hx, hgives, hrun⟩ := hleak
  obtain ⟨c, a, socketPath, he, hc⟩ := connecting?_eq_some.1 hx
  simp only at he hc hgives hrun
  have hown := owns_call hc
  obtain ⟨p, hp, hkilled⟩ := hg.alive _ _ hown
  have hrunning : w'.processes = w.processes → ¬ Disposed w' child := by
    rintro hsame ⟨p', hp', hd⟩
    rw [hsame, hp, Option.some.injEq] at hp'
    subst hp'
    rw [hp, Option.bind_some] at hrun
    simp [hrun, hkilled] at hd
  refine ⟨c, child, hown, ?_⟩
  cases hst with
  | enter | reject | keepalive | release | status | exit | write => cases he
  | cancelBare hc' =>
    obtain rfl := Option.some.inj he
    exact ⟨.inr rfl, hrunning rfl⟩
  | connectFail hc' ht =>
    obtain rfl := Option.some.inj he
    exact ⟨.inl ⟨_, rfl⟩, hrunning rfl⟩
  | connect hc' ht | connectAgain hc' ht =>
    obtain rfl := Option.some.inj he
    simp only [hc, Option.some.injEq, Call.running.injEq, Phase.connecting.injEq] at hc'
    obtain ⟨rfl, rfl, rfl, rfl⟩ := hc'
    obtain ⟨err, hfailed⟩ := connectTurn_givesUp hrun hgives
    rw [hfailed] at ht
    cases ht
  | cancelGuarded hc' hp' =>
    obtain rfl := Option.some.inj he
    rcases hp' with rfl | rfl <;> simp [hc] at hc'
  | _ hc' =>
    obtain rfl := Option.some.inj he
    simp [hc] at hc'

/-- Every process that a call started is with the call, went into a record when the
call succeeded, or is disposed of. -/
def Accounted (h : History) (w : World) : Prop :=
  ∀ t ∈ h, ∀ c child, t.obs = .started c child →
    w.owns (.call c) = some child ∨ (∃ u ∈ h, u.Succeeds c) ∨ Disposed w child

theorem accounted_step (hg : Guarded w) (ha : Accounted h w) (hst : Step H w e o w')
    (hleak : ¬ Leaks ⟨w, e, o, w'⟩) : Accounted (⟨w, e, o, w'⟩ :: h) w' := by
  intro t ht c child hobs
  rcases List.mem_cons.1 ht with rfl | ht
  · cases hst with
    | spawn hc =>
      obtain ⟨rfl, rfl⟩ := Obs.started.inj hobs
      refine .inl ?_
      rw [owns_call_setCall (w := w) (by rfl), if_pos rfl]
      rfl
    | _ => cases hobs
  · rcases ha t ht c child hobs with hown | ⟨u, hu, hsucc⟩ | hd
    · rcases child_fate hg hst hown with hown | hsucc | hd
      · exact .inl hown
      · exact .inr (.inl ⟨_, List.mem_cons_self, hsucc⟩)
      · exact .inr (.inr (hd hleak))
    · exact .inr (.inl ⟨u, List.mem_cons_of_mem _ hu, hsucc⟩)
    · obtain ⟨K, hK⟩ := (step_custody hst).evolves
      exact .inr (.inr (hd.evolves hK))

/-- Failed calls leave nothing behind in exactly the runs in which no call is given up
in the connect loop while its plugin process runs. -/
theorem leavesNothing_iff (hr : Runs H h w) :
    Throughout LeavesNothing h w ↔ Along (fun _ t => ¬ Leaks t) h := by
  refine Machine.Run.throughout_iff (I := Accounted) hereditary_true ?init ?keep ?sound ?fails hr trivial
  case init => exact fun w _ t ht => by cases ht
  case keep =>
    intro h w e o w' hr _ ha hst hleak
    exact accounted_step (Runs.guarded hr) ha (step_cases hst) hleak
  case sound =>
    rintro h w hr - ha c ⟨t, ht, hfails⟩
    have hended := Runs.ended hr
    constructor
    · intro u hu hmoves
      have hst : Step H u.pre u.event u.obs u.post := step_cases (Machine.Run.mem hr hu)
      exact (state_unchanged hst hmoves).resolve_right (hended.once t ht u hu c hfails)
    · intro u hu child hobs
      rcases ha u hu c child hobs with hown | ⟨v, hv, hsucc⟩ | hd
      · have hfin := hended.ended t ht c (.inl hfails)
        simp [World.owns, hfin, Call.child?] at hown
      · exact absurd hsucc (hended.once t ht v hv c hfails)
      · exact hd
  case fails =>
    intro h w e o w' hr _ _ hst hclean hleak
    obtain ⟨c, child, hown, hfails, hrunning⟩ := leaks_running (Runs.guarded hr) (step_cases hst) hleak
    obtain ⟨t, ht, hobs⟩ := (Runs.ended hr).started c child hown
    obtain ⟨-, hdisposed⟩ := hclean c ⟨_, List.mem_cons_self, hfails⟩
    exact hrunning (hdisposed t (List.mem_cons_of_mem _ ht) child hobs)

/-- A plugin that exits early, one that fails its health check, and one that is fine. -/
theorem leavesNothing_iff_sample :
    let run := sampleRun (sampleCheck 0 "redis" "alice" "l0" ++
      [.spawn 0 "0123456789abcdef0123456789abcdef" (.started ⟨0⟩ ⟨1000, 0⟩), .exit ⟨0⟩ "exit status: 1",
        .tryConnect 0 (.err "transport error" none ⟨1001, 0⟩)] ++
      sampleCheck 1 "redis" "alice" "l1" ++
      [.spawn 1 "fedcba9876543210fedcba9876543210" (.started ⟨1⟩ ⟨1000, 0⟩), .tryConnect 1 .ok,
        .describe 1 (.error "status: Unavailable")] ++ sampleTake 2 "redis" "alice" "l2" "6379")
    Throughout LeavesNothing run.1 run.2 := by
  intro run
  exact (leavesNothing_iff (sampleRun_runs _)).2 (by decide)

/-- A plugin that does not serve its socket within the startup timeout is left running. -/
theorem not_leavesNothing : ¬ ∀ (H : Host) (h : History) (w : World), Runs H h w → LeavesNothing h w := by
  intro hall
  let run := sampleRun (sampleCheck 0 "redis" "alice" "l0" ++
    [.spawn 0 "0123456789abcdef0123456789abcdef" (.started ⟨0⟩ ⟨1000, 0⟩),
      .tryConnect 0 (.err "transport error" none ⟨1001, 0⟩),
      .tryConnect 0 (.err "transport error" none ⟨1300, 0⟩)])
  have hrefused : ∃ t ∈ run.1, t.obs = .refused 0
      ⟨.internal, "spawning plugin: timed out connecting to plugin socket: transport error"⟩ := by decide
  have hstarted : ∃ t ∈ run.1, t.obs = .started 0 ⟨0⟩ := by decide
  obtain ⟨t, ht, hrefused⟩ := hrefused
  obtain ⟨u, hu, hstarted⟩ := hstarted
  obtain ⟨-, hdisposed⟩ := hall sampleHost run.1 run.2 (sampleRun_runs _) 0 ⟨t, ht, .inl ⟨_, hrefused⟩⟩
  obtain ⟨p, hp, hd⟩ := hdisposed u hu ⟨0⟩ hstarted
  have hrunning : run.2.processes.lookup ⟨0⟩ = some ⟨[], none, false⟩ := by decide
  rw [hrunning, Option.some.injEq] at hp
  subst hp
  simp at hd

end RulesSystemtest
