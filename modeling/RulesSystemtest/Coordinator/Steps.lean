import RulesSystemtest.Coordinator.Daemon

/-! What a step can do, said once: `Step` lists the branches of `step` with their
guards, and is its graph. Everything proved about steps is derived from it. -/

namespace RulesSystemtest

variable {H : Host} {w w' : World} {e : Event} {o : Obs}

inductive Step (H : Host) (w : World) : Event → Obs → World → Prop where
  | enter {c : CallId} {req : TakeLeaseRequest} {a : Admitted} (hc : w.calls.lookup c = none)
      (hv : takeLeaseValidate H w.files req = .ok a) :
      Step H w (.takeLease c req) .silent (w.setCall c (.running a .fingerprinted))
  | reject {c : CallId} {req : TakeLeaseRequest} {s : Status} (hc : w.calls.lookup c = none)
      (hv : takeLeaseValidate H w.files req = .error s) :
      Step H w (.takeLease c req) (.refused c s) (w.setCall c .finished)
  | attach {c : CallId} {a : Admitted} {record : FixtureRecord} {id : LeaseId}
      (hc : w.calls.lookup c = some (.running a .fingerprinted))
      (hf : findReusable w.state a = some record) :
      Step H w (.reuse c id)
        (.granted id ⟨c, a, record.plugin.child, record.outputs⟩ (takeLeaseAttach w.state a record id).1)
        ({ w with state := (takeLeaseAttach w.state a record id).2 }.setCall c .finished)
  | miss {c : CallId} {a : Admitted} {id : LeaseId}
      (hc : w.calls.lookup c = some (.running a .fingerprinted))
      (hf : findReusable w.state a = none) :
      Step H w (.reuse c id) .silent (w.setCall c (.running a .provisioning))
  | spawnFail {c : CallId} {a : Admitted} {uuid : String} {answer : SpawnAnswer} {s : Status}
      (hc : w.calls.lookup c = some (.running a .provisioning))
      (hs : ∀ u : World, stepSpawn H u c a uuid answer = some (u.refuse c s.code s.message)) :
      Step H w (.spawn c uuid answer) (.refused c s) (w.setCall c .finished)
  | spawnPanic {c : CallId} {a : Admitted} {uuid : String} {child : Child} {now : Instant} {image : Bytes}
      (hc : w.calls.lookup c = some (.running a .provisioning))
      (hp : w.processes.lookup child = none) (hf : w.files a.binaryPath = .ok image)
      (hd : now.add (startupTimeout a.desc) = none) :
      Step H w (.spawn c uuid (.started child now)) (.panicked c child)
        ({ w with processes := w.processes.insert child ⟨image, none, false⟩ }.setCall c .finished)
  | spawn {c : CallId} {a : Admitted} {uuid : String} {child : Child} {now deadline : Instant} {image : Bytes}
      (hc : w.calls.lookup c = some (.running a .provisioning))
      (hp : w.processes.lookup child = none) (hf : w.files a.binaryPath = .ok image)
      (hd : now.add (startupTimeout a.desc) = some deadline) :
      Step H w (.spawn c uuid (.started child now)) (.started c child)
        ({ w with processes := w.processes.insert child ⟨image, none, false⟩ }.setCall c
          (.running a (.connecting child (pluginSocketPath H uuid) deadline)))
  | connect {c : CallId} {a : Admitted} {child : Child} {socketPath : String} {deadline : Instant}
      {answer : DialAnswer} (hc : w.calls.lookup c = some (.running a (.connecting child socketPath deadline)))
      (ht : connectTurn socketPath deadline (w.attempt child answer) = .connected) :
      Step H w (.tryConnect c answer) .silent (w.setCall c (.running a (.connected ⟨child⟩)))
  | connectFail {c : CallId} {a : Admitted} {child : Child} {socketPath : String} {deadline : Instant}
      {answer : DialAnswer} {err : String}
      (hc : w.calls.lookup c = some (.running a (.connecting child socketPath deadline)))
      (ht : connectTurn socketPath deadline (w.attempt child answer) = .failed err) :
      Step H w (.tryConnect c answer) (.refused c ⟨.internal, "spawning plugin: " ++ err⟩)
        (w.setCall c .finished)
  | connectAgain {c : CallId} {a : Admitted} {child : Child} {socketPath : String} {deadline : Instant}
      {answer : DialAnswer} (hc : w.calls.lookup c = some (.running a (.connecting child socketPath deadline)))
      (ht : connectTurn socketPath deadline (w.attempt child answer) = .again) :
      Step H w (.tryConnect c answer) .silent w
  | describe {c : CallId} {a : Admitted} {plugin : PluginProcess}
      (hc : w.calls.lookup c = some (.running a (.connected plugin))) :
      Step H w (.describe c (.ok ())) .silent (w.setCall c (.running a (.described plugin)))
  | describeFail {c : CallId} {a : Admitted} {plugin : PluginProcess} {err : String}
      (hc : w.calls.lookup c = some (.running a (.connected plugin))) :
      Step H w (.describe c (.error err)) (.refused c ⟨.internal, "DescribePlugin: " ++ err⟩)
        ((w.dropPlugin plugin).setCall c .finished)
  | create {c : CallId} {a : Admitted} {plugin : PluginProcess} {fixtureId : FixtureId}
      {reply : Except String CreateStream} {result : FixtureResult}
      (hc : w.calls.lookup c = some (.running a (.described plugin)))
      (hr : RulesSystemtest.createFixture reply = .ok result) :
      Step H w (.createFixture c fixtureId reply)
        (.created ⟨c, a, plugin.child, createRequest a fixtureId, result⟩)
        (w.setCall c (.running a (.created plugin result)))
  | createFail {c : CallId} {a : Admitted} {plugin : PluginProcess} {fixtureId : FixtureId}
      {reply : Except String CreateStream} {err : String}
      (hc : w.calls.lookup c = some (.running a (.described plugin)))
      (hr : RulesSystemtest.createFixture reply = .error err) :
      Step H w (.createFixture c fixtureId reply) (.refused c ⟨.internal, "CreateFixture: " ++ err⟩)
        ((w.dropPlugin plugin).setCall c .finished)
  | insert {c : CallId} {a : Admitted} {plugin : PluginProcess} {result : FixtureResult} {id : LeaseId}
      (hc : w.calls.lookup c = some (.running a (.created plugin result))) :
      Step H w (.insert c id)
        (.granted id ⟨c, a, plugin.child, result.outputs⟩ (takeLeaseInsert w.state a plugin result id).1)
        (({ w with state := (takeLeaseInsert w.state a plugin result id).2 }.dropRecord
          (w.state.fixtures.lookup a.fp)).setCall c .finished)
  | cancelBare {c : CallId} {a : Admitted} {child : Child} {socketPath : String} {deadline : Instant}
      (hc : w.calls.lookup c = some (.running a (.connecting child socketPath deadline))) :
      Step H w (.cancel c) (.cancelled c) (w.setCall c .finished)
  | cancelGuarded {c : CallId} {a : Admitted} {p : Phase} {plugin : PluginProcess}
      (hc : w.calls.lookup c = some (.running a p)) (hp : p = .connected plugin ∨ p = .described plugin) :
      Step H w (.cancel c) (.cancelled c) ((w.dropPlugin plugin).setCall c .finished)
  | keepalive {leaseId : String} :
      Step H w (.keepalive leaseId) (.kept leaseId (RulesSystemtest.keepalive w.state leaseId)) w
  | release {leaseId : String} :
      Step H w (.releaseLease leaseId) (.released leaseId)
        { w with state := RulesSystemtest.releaseLease w.state leaseId }
  | status {leaseId : String} :
      Step H w (.status leaseId) (.reported leaseId (RulesSystemtest.status w.state leaseId)) w
  | exit {child : Child} {status : String} {image : Bytes} {killed : Bool}
      (hp : w.processes.lookup child = some ⟨image, none, killed⟩) :
      Step H w (.exit child status) .silent
        { w with processes := w.processes.insert child ⟨image, some status, killed⟩ }
  | write {path : String} {contents : Except String Bytes} :
      Step H w (.write path contents) .silent { w with files := Function.update w.files path contents }

/-! ### `Step` is the graph of `step` -/

theorem stepTakeLease_cases {c : CallId} {req : TakeLeaseRequest}
    (h : stepTakeLease H w c req = some (o, w')) : Step H w (.takeLease c req) o w' := by
  unfold stepTakeLease at h
  cases hc : w.calls.lookup c with
  | some k => simp [hc] at h
  | none =>
    simp only [hc] at h
    cases hv : takeLeaseValidate H w.files req with
    | ok a =>
      simp only [hv, Option.some.injEq, Prod.mk.injEq] at h
      obtain ⟨rfl, rfl⟩ := h
      exact .enter hc hv
    | error s =>
      simp only [hv, World.refuse, Option.some.injEq, Prod.mk.injEq] at h
      obtain ⟨rfl, rfl⟩ := h
      exact .reject hc hv

theorem stepSpawn_cases {c : CallId} {a : Admitted} {uuid : String} {answer : SpawnAnswer}
    (hc : w.calls.lookup c = some (.running a .provisioning))
    (h : stepSpawn H w c a uuid answer = some (o, w')) : Step H w (.spawn c uuid answer) o w' := by
  cases answer with
  | dirFailed err =>
    simp only [stepSpawn, World.refuse, Option.some.injEq, Prod.mk.injEq] at h
    obtain ⟨rfl, rfl⟩ := h
    exact .spawnFail hc fun u => rfl
  | commandFailed err =>
    simp only [stepSpawn, World.refuse, Option.some.injEq, Prod.mk.injEq] at h
    obtain ⟨rfl, rfl⟩ := h
    exact .spawnFail hc fun u => rfl
  | started child now =>
    cases hp : w.processes.lookup child with
    | some p => simp [stepSpawn, hp] at h
    | none =>
      cases hf : w.files a.binaryPath with
      | error err => simp [stepSpawn, hp, hf] at h
      | ok image =>
        cases hd : now.add (startupTimeout a.desc) with
        | some deadline =>
          simp only [stepSpawn, hp, hf, hd, Option.some.injEq, Prod.mk.injEq] at h
          obtain ⟨rfl, rfl⟩ := h
          exact .spawn hc hp hf hd
        | none =>
          simp only [stepSpawn, hp, hf, hd, Option.some.injEq, Prod.mk.injEq] at h
          obtain ⟨rfl, rfl⟩ := h
          exact .spawnPanic hc hp hf hd

theorem stepCall_cases {c : CallId} {a : Admitted} {p : Phase}
    (hc : w.calls.lookup c = some (.running a p)) (he : e.call? = some c)
    (h : stepCall H w c a p e = some (o, w')) : Step H w e o w' := by
  unfold stepCall at h
  split at h <;> simp only [Event.call?, Option.some.injEq] at he <;> try subst he
  · -- the reuse check
    unfold stepReuse at h
    cases hf : findReusable w.state a with
    | some record =>
      simp only [hf, Option.some.injEq, Prod.mk.injEq] at h
      obtain ⟨rfl, rfl⟩ := h
      exact .attach hc hf
    | none =>
      simp only [hf, Option.some.injEq, Prod.mk.injEq] at h
      obtain ⟨rfl, rfl⟩ := h
      exact .miss hc hf
  · exact stepSpawn_cases hc h
  · -- one turn of the connect loop
    rename_i child socketPath deadline _ answer
    unfold stepTryConnect at h
    cases ht : connectTurn socketPath deadline (w.attempt child answer) <;>
      simp only [ht, World.refuse, Option.some.injEq, Prod.mk.injEq] at h <;> obtain ⟨rfl, rfl⟩ := h
    · exact .connect hc ht
    · exact .connectFail hc ht
    · exact .connectAgain hc ht
  · rename_i reply
    cases reply <;> simp only [stepDescribe, World.refuse, Option.some.injEq, Prod.mk.injEq] at h <;>
      obtain ⟨rfl, rfl⟩ := h
    · exact .describeFail hc
    · exact .describe hc
  · rename_i reply
    unfold stepCreateFixture at h
    cases hr : RulesSystemtest.createFixture reply <;>
      simp only [hr, World.refuse, Option.some.injEq, Prod.mk.injEq] at h <;> obtain ⟨rfl, rfl⟩ := h
    · exact .createFail hc hr
    · exact .create hc hr
  · simp only [stepInsert, Option.some.injEq, Prod.mk.injEq] at h
    obtain ⟨rfl, rfl⟩ := h
    exact .insert hc
  · -- dropping the future
    cases p <;> simp only [stepCancel, reduceCtorEq, Option.some.injEq, Prod.mk.injEq] at h <;>
      obtain ⟨rfl, rfl⟩ := h
    · exact .cancelBare hc
    · exact .cancelGuarded hc (.inl rfl)
    · exact .cancelGuarded hc (.inr rfl)
  · cases h

theorem step_cases (h : step H w e = some (o, w')) : Step H w e o w' := by
  cases e with
  | takeLease c req => exact stepTakeLease_cases h
  | keepalive leaseId =>
    simp only [step, Option.some.injEq, Prod.mk.injEq] at h
    obtain ⟨rfl, rfl⟩ := h
    exact .keepalive
  | releaseLease leaseId =>
    simp only [step, Option.some.injEq, Prod.mk.injEq] at h
    obtain ⟨rfl, rfl⟩ := h
    exact .release
  | status leaseId =>
    simp only [step, Option.some.injEq, Prod.mk.injEq] at h
    obtain ⟨rfl, rfl⟩ := h
    exact .status
  | exit child status =>
    simp only [step] at h
    split at h
    · next image killed hp =>
      simp only [Option.some.injEq, Prod.mk.injEq] at h
      obtain ⟨rfl, rfl⟩ := h
      exact .exit hp
    · cases h
  | write path contents =>
    simp only [step, Option.some.injEq, Prod.mk.injEq] at h
    obtain ⟨rfl, rfl⟩ := h
    exact .write
  | _ c =>
    -- the future of `c` moves, from the phase it is in
    simp only [step, Event.call?] at h
    split at h
    · next a p hc => exact stepCall_cases hc rfl h
    · cases h

theorem step_of_step (h : Step H w e o w') : step H w e = some (o, w') := by
  cases h with
  | enter hc hv => simp [step, stepTakeLease, hc, hv]
  | reject hc hv => simp [step, stepTakeLease, hc, hv, World.refuse]
  | attach hc hf => simp [step, Event.call?, hc, stepCall, stepReuse, hf]; rfl
  | miss hc hf => simp [step, Event.call?, hc, stepCall, stepReuse, hf]
  | spawnFail hc hs => simp [step, Event.call?, hc, stepCall, hs, World.refuse]
  | spawnPanic hc hp hf hd => simp [step, Event.call?, hc, stepCall, stepSpawn, hp, hf, hd]
  | spawn hc hp hf hd => simp [step, Event.call?, hc, stepCall, stepSpawn, hp, hf, hd]
  | connect hc ht => simp [step, Event.call?, hc, stepCall, stepTryConnect, ht]
  | connectFail hc ht => simp [step, Event.call?, hc, stepCall, stepTryConnect, ht, World.refuse]
  | connectAgain hc ht => simp [step, Event.call?, hc, stepCall, stepTryConnect, ht]
  | describe hc => simp [step, Event.call?, hc, stepCall, stepDescribe]
  | describeFail hc => simp [step, Event.call?, hc, stepCall, stepDescribe, World.refuse]
  | create hc hr => simp [step, Event.call?, hc, stepCall, stepCreateFixture, hr]
  | createFail hc hr => simp [step, Event.call?, hc, stepCall, stepCreateFixture, hr, World.refuse]
  | insert hc => simp [step, Event.call?, hc, stepCall, stepInsert]; rfl
  | cancelBare hc => simp [step, Event.call?, hc, stepCall, stepCancel]
  | cancelGuarded hc hp => rcases hp with rfl | rfl <;> simp [step, Event.call?, hc, stepCall, stepCancel]
  | keepalive => rfl
  | release => rfl
  | status => rfl
  | exit hp => simp [step, hp]
  | write => rfl

theorem step_iff : step H w e = some (o, w') ↔ Step H w e o w' := ⟨step_cases, step_of_step⟩

end RulesSystemtest
