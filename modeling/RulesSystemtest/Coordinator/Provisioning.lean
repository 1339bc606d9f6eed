import RulesSystemtest.Coordinator.Custody

/-! What the coordinator makes of a plugin while it provisions a fixture: how long it
tries to connect, and which item of the `CreateFixture` stream decides. -/

namespace RulesSystemtest

open Library

variable {H : Host} {h : History} {w w' : World} {e : Event} {o : Obs} {c : CallId} {a : Admitted} {child : Child}
  {socketPath : String} {deadline : Instant}

/-! ### Clock -/

/-- A reading in nanoseconds. -/
def Instant.total (t : Instant) : ℤ := t.secs.toInt * 1000000000 + t.nanos.val

theorem Instant.le_iff {s t : Instant} : s.le t = true ↔ s.total ≤ t.total := by
  simp only [Instant.le, Bool.or_eq_true, Bool.and_eq_true, decide_eq_true_eq, beq_iff_eq, Instant.total,
    Int64.lt_iff_toInt_lt, ← Int64.toInt_inj, Fin.le_def]
  omega

theorem Instant.add_eq_none_iff {t : Instant} {seconds : UInt64} :
    t.add seconds = none ↔ 2 ^ 63 ≤ t.secs.toInt + seconds.toNat := by
  unfold Instant.add
  split
  · next h => exact iff_of_false (Option.some_ne_none _) (not_le.2 h)
  · next h => exact iff_of_true rfl (not_lt.1 h)

theorem Instant.total_of_add {t deadline : Instant} {seconds : UInt64} (h : t.add seconds = some deadline) :
    deadline.total = t.total + seconds.toNat * 1000000000 := by
  unfold Instant.add at h
  split at h
  · next hlt =>
    cases h
    have hlow := t.secs.le_toInt
    simp only [Instant.total]
    rw [Int64.toInt_ofInt_of_le (by omega) hlt]
    ring
  · cases h

/-! ### Startup timeout -/

/-- The seconds that a description asks for, or the default where it asks for none. -/
def timeoutSeconds (desc : FixtureDescription) : ℤ :=
  if 0 < desc.startupTimeoutSeconds.toInt then desc.startupTimeoutSeconds.toInt else 300

/-- The conversion to unsigned seconds loses nothing. -/
theorem toNat_startupTimeout (desc : FixtureDescription) : ((startupTimeout desc).toNat : ℤ) = timeoutSeconds desc := by
  unfold startupTimeout timeoutSeconds
  by_cases h : desc.startupTimeoutSeconds > 0
  · have hpos : 0 < desc.startupTimeoutSeconds.toInt := Int64.lt_iff_toInt_lt.1 h
    have hle : 0 ≤ desc.startupTimeoutSeconds := Int64.le_of_lt h
    rw [if_pos h, if_pos hpos, Int64.toNat_toUInt64_of_le hle, Int64.cast_toNatClampNeg _ hle]
  · have hneg : ¬ 0 < desc.startupTimeoutSeconds.toInt := fun hpos => h (Int64.lt_iff_toInt_lt.2 hpos)
    rw [if_neg h, if_neg hneg]
    rfl

theorem add_startupTimeout_eq_none_iff {now : Instant} {desc : FixtureDescription} :
    now.add (startupTimeout desc) = none ↔ 2 ^ 63 ≤ now.secs.toInt + timeoutSeconds desc := by
  rw [Instant.add_eq_none_iff, toNat_startupTimeout]

/-! ### Connect loop -/

/-- The attempts of a client whose dials all fail while the child is alive: the error of
each, and the clock after it. -/
def failing (failures : List (String × Instant)) : List Attempt := failures.map fun f => .err f.1 (.ok none) f.2

/-- The loop gives up with the error of a failure, or goes on without one. -/
def gaveUp : Option (String × Instant) → Turn
  | some f => .failed (context "timed out connecting to plugin socket" f.1)
  | none => .again

/-- How a turn ends the loop, if it does. -/
def turnOutcome : Turn → Option Turn
  | .again => none
  | turn => some turn

theorem connectLoop_eq (socketPath : String) (deadline : Instant) (attempts : List Attempt) :
    connectLoop socketPath deadline attempts =
      firstOutcome (fun attempt => turnOutcome (connectTurn socketPath deadline attempt)) .again attempts := by
  induction attempts with
  | nil => rfl
  | cons attempt attempts ih =>
    rw [connectLoop, firstOutcome, ← ih]
    cases connectTurn socketPath deadline attempt with
    | connected => rfl
    | failed e => rfl
    | again => rfl

theorem connectLoop_failing (socketPath : String) (deadline : Instant) (failures : List (String × Instant)) :
    connectLoop socketPath deadline (failing failures) = gaveUp (failures.find? fun f => deadline.le f.2) := by
  have hturn : ∀ f : String × Instant, turnOutcome (connectTurn socketPath deadline (.err f.1 (.ok none) f.2)) =
      if deadline.le f.2 then some (gaveUp (some f)) else none := by
    intro f
    rw [connectTurn]
    split
    · rfl
    · rfl
  rw [connectLoop_eq, failing, firstOutcome_map, firstOutcome_find hturn]
  cases failures.find? fun f => deadline.le f.2 with
  | none => rfl
  | some f => rfl

/-- The timeout of the description bounds the connect loop: the conversion is exact, the
deadline exists, and the loop gives up at the first failure at or after it and not before. -/
structure Bounds (desc : FixtureDescription) (socketPath : String) (now : Instant) : Prop where
  converts : ((startupTimeout desc).toNat : ℤ) = timeoutSeconds desc
  defined : (now.add (startupTimeout desc)).isSome
  givesUp : ∀ failures, connectWithRetry socketPath (startupTimeout desc) now (failing failures) =
    some (gaveUp (failures.find? fun f => now.total + timeoutSeconds desc * 1000000000 ≤ f.2.total))

/-- The startup timeout bounds the connect loop exactly when the deadline still fits into
the seconds of the clock. -/
theorem startupTimeout_bounds_iff (desc : FixtureDescription) (socketPath : String) (now : Instant) :
    Bounds desc socketPath now ↔ now.secs.toInt + timeoutSeconds desc < 2 ^ 63 := by
  constructor
  · intro h
    by_contra hover
    have hnone := add_startupTimeout_eq_none_iff.2 (not_lt.1 hover)
    have hdefined := h.defined
    rw [hnone] at hdefined
    cases hdefined
  · intro h
    cases hadd : now.add (startupTimeout desc) with
    | none => exact absurd h (not_lt.2 (add_startupTimeout_eq_none_iff.1 hadd))
    | some deadline =>
      have htotal := Instant.total_of_add hadd
      rw [toNat_startupTimeout] at htotal
      refine ⟨toNat_startupTimeout desc, by rw [hadd]; rfl, fun failures => ?_⟩
      have hle : ∀ f : String × Instant, deadline.le f.2 =
          decide (now.total + timeoutSeconds desc * 1000000000 ≤ f.2.total) := by
        intro f
        rw [Bool.eq_iff_iff, Instant.le_iff, htotal, decide_eq_true_eq]
      simp only [connectWithRetry, hadd, Option.map_some, connectLoop_failing, hle]

/-- A fixture with the largest timeout that a request can carry. -/
def patientDesc : FixtureDescription where
  implId := "redis"
  plugin := some (.binaryPath "/plugin")
  inputs := ∅
  imageInputs := []
  fileInputs := []
  sharing := none
  startupTimeoutSeconds := Int64.maxValue
  name := "cache"

theorem startupTimeout_overflows : ¬ ∀ desc socketPath now, Bounds desc socketPath now := by
  intro h
  have hdefined := (h patientDesc "/tmp/systemtest/plugins/01234567.sock" ⟨1, 0⟩).defined
  revert hdefined
  decide

/-! ### The connect loop in a run -/

/-- The world after the connect loop of a call ended with this turn. -/
def World.connectEnds (w : World) (c : CallId) (a : Admitted) (child : Child) : Turn → World
  | .connected => w.setCall c (.running a (.connected ⟨child⟩))
  | .failed _ => w.setCall c .finished
  | .again => w

theorem replay_refused (answers : List DialAnswer)
    (hc : ∀ a child socketPath deadline, w.calls.lookup c ≠ some (.running a (.connecting child socketPath deadline))) :
    ((daemon H).replay (h, w) (answers.map (.tryConnect c))).2 = w := by
  induction answers with
  | nil => rfl
  | cons answer answers ih =>
    rw [List.map_cons, Machine.replay]
    split
    · next o w' hstep =>
      have hst : Step H w (.tryConnect c answer) o w' := step_cases hstep
      cases hst with
      | connect hc' | connectFail hc' | connectAgain hc' => exact absurd hc' (hc _ _ _ _)
    · exact ih

/-- Dialing step by step runs the connect loop. -/
theorem replay_connectLoop (answers : List DialAnswer)
    (hc : w.calls.lookup c = some (.running a (.connecting child socketPath deadline))) :
    ((daemon H).replay (h, w) (answers.map (.tryConnect c))).2 =
      w.connectEnds c a child (connectLoop socketPath deadline (answers.map (w.attempt child))) := by
  induction answers generalizing h with
  | nil => rfl
  | cons answer answers ih =>
    have hstep : (daemon H).step w (.tryConnect c answer) =
        some (stepTryConnect w c a child socketPath deadline answer) := by
      simp only [daemon, step, Event.call?, hc, stepCall]
    simp only [List.map_cons, Machine.replay, hstep, connectLoop, stepTryConnect]
    cases connectTurn socketPath deadline (w.attempt child answer) with
    | connected => exact replay_refused answers fun _ _ _ _ => by simp
    | failed e => exact replay_refused answers fun _ _ _ _ => by simp [World.refuse]
    | again => exact ih

theorem connectTurn_eq_again_iff {attempt : Attempt} : connectTurn socketPath deadline attempt = .again ↔
    ∃ err now, attempt = .err err (.ok none) now ∧ now.total < deadline.total := by
  unfold connectTurn
  split
  · simp
  · simp
  · simp
  · next err now =>
    have hlt : now.total < deadline.total ↔ ¬ deadline.le now = true := by rw [Instant.le_iff, not_le]
    split
    · simp_all
    · simp_all

/-- A call panics only where it spawns, and its timeout does not fit into the clock. The
child is left running. -/
theorem panicked_cases (hst : Step H w e (.panicked c child) w') : ∃ a uuid now,
    w.calls.lookup c = some (.running a .provisioning) ∧ e = .spawn c uuid (.started child now) ∧
    2 ^ 63 ≤ now.secs.toInt + timeoutSeconds a.desc ∧
    ∃ image, w'.processes.lookup child = some ⟨image, none, false⟩ := by
  cases hst with
  | @spawnPanic _ a uuid _ now image hc hp hf hd =>
    exact ⟨a, uuid, now, hc, rfl, add_startupTimeout_eq_none_iff.1 hd, image, by simp⟩

/-- Since the call spawned its child, it made only dials that failed before the deadline. -/
def Dialing (h : History) (c : CallId) (a : Admitted) (child : Child) (deadline : Instant) : Prop :=
  ∃ newer spawn older uuid now, h = newer ++ spawn :: older ∧ spawn.event = .spawn c uuid (.started child now) ∧
    deadline.total = now.total + timeoutSeconds a.desc * 1000000000 ∧
    ∀ t ∈ newer, t.event.call? = some c →
      ∃ err reading, t.event = .tryConnect c (.err err none reading) ∧ reading.total < deadline.total

/-- How a call comes to be in the connect loop. -/
theorem dialing_step (hst : Step H w e o w')
    (hc : w'.calls.lookup c = some (.running a (.connecting child socketPath deadline))) :
    e.call? ≠ some c ∧ w.calls.lookup c = some (.running a (.connecting child socketPath deadline)) ∨
      (∃ err now, e = .tryConnect c (.err err none now) ∧ now.total < deadline.total ∧
        w.calls.lookup c = some (.running a (.connecting child socketPath deadline))) ∨
      ∃ uuid now, e = .spawn c uuid (.started child now) ∧ now.add (startupTimeout a.desc) = some deadline := by
  rcases hst.running_cases hc with he | hbefore | ⟨hphase, -, -⟩
  · refine .inr ?_
    cases hst with
    | enter | reject | keepalive | release | status | exit | write => cases he
    | spawn hrunning hp hf hd =>
      obtain rfl := Option.some.inj he
      rw [setCall_calls, Finmap.lookup_insert] at hc
      cases hc
      exact .inr ⟨_, _, rfl, hd⟩
    | @connectAgain _ _ _ _ _ answer hrunning ht =>
      obtain rfl := Option.some.inj he
      obtain ⟨err, now, hattempt, hlt⟩ := connectTurn_eq_again_iff.1 ht
      cases answer with
      | ok => cases hattempt
      | err err' pollError now' =>
        cases pollError with
        | some _ => cases hattempt
        | none =>
          obtain ⟨rfl, -, rfl⟩ := Attempt.err.inj hattempt
          rw [hrunning] at hc
          cases hc
          exact .inl ⟨_, _, rfl, hlt, hrunning⟩
    | _ =>
      obtain rfl := Option.some.inj he
      rw [setCall_calls, Finmap.lookup_insert] at hc
      cases hc
  · exact .inl hbefore
  · cases hphase

/-- A call that is connecting has given up on nothing: every dial since the spawn failed
before the deadline, which is the timeout after the clock at the spawn. -/
theorem Runs.dialing (hr : Runs H h w) : ∀ c a child socketPath deadline,
    w.calls.lookup c = some (.running a (.connecting child socketPath deadline)) → Dialing h c a child deadline := by
  refine Machine.Run.invariant hereditary_true (I := fun h w => ∀ c a child socketPath deadline,
    w.calls.lookup c = some (.running a (.connecting child socketPath deadline)) → Dialing h c a child deadline)
    ?_ ?_ hr trivial
  · rintro w ⟨files, rfl⟩ c a child socketPath deadline hc
    cases hc
  · intro h w e o w' _ _ ih hst c a child socketPath deadline hc
    rcases dialing_step (step_cases hst) hc with ⟨he, hbefore⟩ | ⟨err, now, rfl, hlt, hbefore⟩ | ⟨uuid, now, rfl, hadd⟩
    · obtain ⟨newer, spawn, older, uuid, now, rfl, hspawn, htotal, hnewer⟩ := ih _ _ _ _ _ hbefore
      exact ⟨⟨w, e, o, w'⟩ :: newer, spawn, older, uuid, now, rfl, hspawn, htotal,
        List.forall_mem_cons.2 ⟨fun h => absurd h he, hnewer⟩⟩
    · obtain ⟨newer, spawn, older, uuid, start, rfl, hspawn, htotal, hnewer⟩ := ih _ _ _ _ _ hbefore
      exact ⟨⟨w, _, o, w'⟩ :: newer, spawn, older, uuid, start, rfl, hspawn, htotal,
        List.forall_mem_cons.2 ⟨fun _ => ⟨err, now, rfl, hlt⟩, hnewer⟩⟩
    · have htotal := Instant.total_of_add hadd
      rw [toNat_startupTimeout] at htotal
      exact ⟨[], ⟨w, _, o, w'⟩, h, uuid, now, rfl, rfl, htotal, List.forall_mem_nil _⟩

/-! ### CreateFixture -/

/-- The item ends the stream: an error of the transport, or one of the two terminal
statuses, which have the numbers 4 (`CREATE_PROGRESS_SUCCEEDED`) and 5 (`CREATE_PROGRESS_ERROR`). -/
def EndsStream : Except String CreateProgress → Prop
  | .error _ => True
  | .ok p => p.status = 4 ∨ p.status = 5

/-- The first item that ends the stream is a success that carries `result`. -/
def Delivers (stream : CreateStream) (result : FixtureResult) : Prop :=
  ∃ before p rest, stream = before ++ .ok p :: rest ∧ (∀ x ∈ before, ¬ EndsStream x) ∧
    p.status = 4 ∧ p.result = some result

/-- A message without its result, if it is not the success that carries one. -/
def CreateProgress.withoutStray (p : CreateProgress) : CreateProgress :=
  if p.status = 4 then p else { p with result := none }

theorem ofInt32_eq_succeeded_iff {i : Int32} : CreateProgressStatus.ofInt32 i = .succeeded ↔ i = 4 := by
  unfold CreateProgressStatus.ofInt32
  grind

theorem ofInt32_eq_error_iff {i : Int32} : CreateProgressStatus.ofInt32 i = .error ↔ i = 5 := by
  unfold CreateProgressStatus.ofInt32
  grind

theorem isSome_itemOutcome_iff {x : Except String CreateProgress} : (itemOutcome x).isSome ↔ EndsStream x := by
  rw [Option.isSome_iff_ne_none, ne_eq, itemOutcome_eq_none_iff]
  cases x with
  | error e => simp [EndsStream]
  | ok p =>
    simp only [EndsStream, CreateProgress.terminal, ofInt32_eq_succeeded_iff, ofInt32_eq_error_iff, Except.ok.injEq,
      exists_eq_left', not_not]

theorem not_endsStream_iff {x : Except String CreateProgress} :
    ¬ EndsStream x ↔ ∃ p, x = .ok p ∧ ¬ p.terminal := by
  rw [← isSome_itemOutcome_iff, ← itemOutcome_eq_none_iff, Option.not_isSome_iff_eq_none]

theorem itemOutcome_withoutStray (x : Except String CreateProgress) :
    itemOutcome (x.map CreateProgress.withoutStray) = itemOutcome x := by
  cases x with
  | error e => rfl
  | ok p =>
    rw [Except.map, CreateProgress.withoutStray]
    split
    · rfl
    · next hstatus =>
      simp only [itemOutcome]
      cases hs : CreateProgressStatus.ofInt32 p.status with
      | succeeded => exact absurd (ofInt32_eq_succeeded_iff.1 hs) hstatus
      | _ => rfl

theorem drainCreateStream_eq_ok_iff {stream : CreateStream} {result : FixtureResult} :
    drainCreateStream stream = .ok result ↔ Delivers stream result := by
  rw [drainCreateStream_eq_ok]
  simp only [Delivers, not_endsStream_iff, ofInt32_eq_succeeded_iff]

/-- The call returns the result of the first item that ends the stream if that is a
success with one, and an error otherwise. The results of other messages and the items
that follow have no influence. -/
theorem createFixture_drains (stream : CreateStream) :
    (∀ result, createFixture (.ok stream) = .ok result ↔ Delivers stream result) ∧
    ((¬ ∃ result, Delivers stream result) → ∃ e, createFixture (.ok stream) = .error e) ∧
    createFixture (.ok (stream.map (Except.map CreateProgress.withoutStray))) = createFixture (.ok stream) ∧
    ∀ before x rest rest', stream = before ++ x :: rest → EndsStream x →
      createFixture (.ok (before ++ x :: rest')) = createFixture (.ok stream) := by
  refine ⟨fun result => drainCreateStream_eq_ok_iff, fun h => ?_, ?_, ?_⟩
  · cases heq : createFixture (.ok stream) with
    | error e => exact ⟨e, rfl⟩
    | ok result => exact absurd ⟨result, drainCreateStream_eq_ok_iff.1 heq⟩ h
  · simp only [createFixture, drainCreateStream_eq, firstOutcome_map, itemOutcome_withoutStray]
  · rintro before x rest rest' rfl hx
    simp only [createFixture, drainCreateStream_eq]
    exact firstOutcome_append_cons (isSome_itemOutcome_iff.2 hx) before rest' rest

end RulesSystemtest
