import RulesSystemtest.Coordinator.Reuse

/-! The plugin bytes that ran. A call reads its plugin binary when it computes its
fingerprint, and the operating system reads it again when the call spawns the plugin.
The stored fixture was built by the bytes its fingerprint names exactly when nobody
rewrote the file between the two. -/

namespace RulesSystemtest

open Library

variable {H : Host} {h : History} {w w' : World} {e : Event} {o : Obs}

/-! ### The two readings of a call -/

def Event.enters? : Event → Option CallId
  | .takeLease c _ => some c
  | _ => none

def Event.starts? : Event → Option CallId
  | .spawn c _ (.started _ _) => some c
  | _ => none

/-- The plugin contents whose digest the call put into its fingerprint. -/
def Hashed (H : Host) (h : History) (c : CallId) (a : Admitted) (binary : Bytes) : Prop :=
  ∃ t ∈ h, t.event = .takeLease c a.req ∧ takeLeaseValidate H t.pre.files a.req = .ok a ∧
    t.pre.files a.binaryPath = .ok binary

/-- Every stored fixture was built by a process that runs the contents which the
creating call hashed, so that the fingerprint it is stored under is that of the
recipe with these bytes. -/
def RanHashed (H : Host) (h : History) (w : World) : Prop :=
  ∀ fp r, w.state.fixtures.lookup fp = some r → ∃ i ∈ instances h, ∃ p,
    i.admitted.fp = fp ∧ i.child = r.plugin.child ∧ w.processes.lookup i.child = some p ∧
    Hashed H h i.call i.admitted p.image ∧
    FixtureFingerprint.compute H (fun _ => .ok p.image) i.admitted.desc i.admitted.binaryPath = .ok fp

/-- The step stores a fixture of a call whose plugin binary had other contents when
its plugin was spawned than when the call hashed it. -/
def StoresRewritten (h : History) (t : Moment) : Prop :=
  ∃ c ∈ t.event.call?, ∃ x ∈ t.stores?, ∃ u ∈ h, u.event.enters? = some c ∧
    ∃ v ∈ h, v.event.starts? = some c ∧ v.pre.files x.1.binaryPath ≠ u.pre.files x.1.binaryPath

instance (h : History) (t : Moment) : Decidable (StoresRewritten h t) :=
  inferInstanceAs (Decidable (∃ _ ∈ _, ∃ _ ∈ _, ∃ _ ∈ _, _ ∧ ∃ _ ∈ _, _ ∧ _))

theorem Hashed.cons {c : CallId} {a : Admitted} {binary : Bytes} (hh : Hashed H h c a binary) (t : Moment) :
    Hashed H (t :: h) c a binary := by
  obtain ⟨u, hu, hread⟩ := hh
  exact ⟨u, List.mem_cons_of_mem _ hu, hread⟩

/-- The fingerprint depends on the file system through the contents of the binary. -/
theorem Hashed.compute {c : CallId} {a : Admitted} {binary : Bytes} (hh : Hashed H h c a binary) :
    FixtureFingerprint.compute H (fun _ => .ok binary) a.desc a.binaryPath = .ok a.fp := by
  obtain ⟨t, -, -, hv, hread⟩ := hh
  obtain ⟨-, hfp⟩ := takeLeaseValidate_eq_ok hv
  rw [← hfp]
  simp only [FixtureFingerprint.compute, canonicalEncoding, hashPluginBinary, hread]

/-! ### Each call enters once and spawns once -/

/-- A call was not seen before it entered, and spawned nothing while it has no child. -/
structure Unspawned (h : History) (w : World) : Prop where
  absent : ∀ c, w.calls.lookup c = none → ∀ t ∈ h, t.event.enters? ≠ some c ∧ t.event.starts? ≠ some c
  idle : ∀ c a p, w.calls.lookup c = some (.running a p) → p.child? = none → ∀ t ∈ h, t.event.starts? ≠ some c

/-- What a step that enters or starts something does to its call. -/
theorem enters_step (hst : Step H w e o w') {c : CallId} (he : e.enters? = some c) :
    w.calls.lookup c = none ∧ w'.calls.lookup c ≠ none ∧ e.starts? = none := by
  cases hst with
  | enter hc | reject hc =>
    obtain rfl := Option.some.inj he
    exact ⟨hc, by simp, rfl⟩
  | _ => cases he

theorem starts_step (hst : Step H w e o w') {c : CallId} (he : e.starts? = some c) :
    (∃ a, w.calls.lookup c = some (.running a .provisioning)) ∧ w'.calls.lookup c ≠ none ∧
      ∀ a p, w'.calls.lookup c = some (.running a p) → p.child? ≠ none := by
  cases hst with
  | spawn hc | spawnPanic hc =>
    obtain rfl := Option.some.inj he
    refine ⟨⟨_, hc⟩, by simp, fun a p hp => ?_⟩
    simp only [setCall_calls, HashMap.lookup_insert, if_true, Option.some.injEq] at hp
    cases hp <;> simp [Phase.child?]
  | @spawnFail _ _ _ answer s hc hs =>
    cases answer with
    | started child now =>
      exfalso
      have hlost := hs { w with processes := ∅, files := fun _ => .error "" }
      simp [stepSpawn] at hlost
    | _ => cases he
  | _ => cases he

theorem calls_kept (hst : Step H w e o w') {c : CallId} (hc : w.calls.lookup c ≠ none) :
    w'.calls.lookup c ≠ none := by
  by_cases he : e.call? = some c
  · obtain ⟨a, p, -, hfin | ⟨q, hq⟩⟩ := hst.running he
    · simp [hfin]
    · simp [hq]
  · by_cases ht : ∃ req, e = .takeLease c req
    · obtain ⟨req, rfl⟩ := ht
      exact (enters_step hst rfl).2.1
    · rwa [hst.other_calls he (not_exists.1 ht)]

/-- A call without a child had none before the step, if it was there. -/
theorem idle_step (hst : Step H w e o w') {c : CallId} {a : Admitted} {q : Phase}
    (hq : w'.calls.lookup c = some (.running a q)) (hidle : q.child? = none) :
    w.calls.lookup c = none ∨ ∃ p, w.calls.lookup c = some (.running a p) ∧ p.child? = none := by
  rcases hst.running_cases hq with he | ⟨-, hq⟩ | ⟨-, hnone, -⟩
  · cases hst with
    | enter | reject | keepalive | release | status | exit | write => cases he
    | connectAgain hc =>
      obtain rfl := Option.some.inj he
      rw [hc] at hq
      cases hq
      cases hidle
    | miss hc =>
      obtain rfl := Option.some.inj he
      simp only [setCall_calls, HashMap.lookup_insert, if_true, Option.some.injEq, Call.running.injEq] at hq
      obtain ⟨rfl, -⟩ := hq
      exact .inr ⟨_, hc, rfl⟩
    | _ hc =>
      obtain rfl := Option.some.inj he
      simp only [setCall_calls, HashMap.lookup_insert, if_true, Option.some.injEq] at hq
      cases hq <;> cases hidle
  · exact .inr ⟨q, hq, hidle⟩
  · exact .inl hnone

theorem unspawned_step (hu : Unspawned h w) (hst : Step H w e o w') : Unspawned (⟨w, e, o, w'⟩ :: h) w' := by
  have hbefore : ∀ {c}, w'.calls.lookup c = none → w.calls.lookup c = none := by
    intro c hc
    by_contra hne
    exact calls_kept hst hne hc
  constructor
  · intro c hc t ht
    rcases List.mem_cons.1 ht with rfl | ht
    · exact ⟨fun he => (enters_step hst he).2.1 hc, fun he => (starts_step hst he).2.1 hc⟩
    · exact hu.absent c (hbefore hc) t ht
  · intro c a q hq hidle t ht
    rcases List.mem_cons.1 ht with rfl | ht
    · exact fun he => (starts_step hst he).2.2 a q hq hidle
    · rcases idle_step hst hq hidle with hnone | ⟨p, hp, hidle⟩
      · exact (hu.absent c hnone t ht).2
      · exact hu.idle c a p hp hidle t ht

theorem Runs.unspawned (hr : Runs H h w) : Unspawned h w := by
  refine Machine.Run.invariant hereditary_true (I := Unspawned) ?_ ?_ hr trivial
  · rintro _ ⟨files, rfl⟩
    exact ⟨fun _ _ _ ht => absurd ht List.not_mem_nil, fun _ _ _ _ _ _ ht => absurd ht List.not_mem_nil⟩
  · intro h w e o w' _ _ hu hst
    exact unspawned_step hu (step_cases hst)

/-- A mark that a call gets only while it has none is on one step of the history. -/
theorem Runs.marked_once {mark : Event → Option CallId}
    (hmark : ∀ h w e o w' c, Runs H h w → Step H w e o w' → mark e = some c → ∀ t ∈ h, mark t.event ≠ some c)
    (hr : Runs H h w) {c : CallId} {t u : Moment} (ht : t ∈ h) (hu : u ∈ h) (htc : mark t.event = some c)
    (huc : mark u.event = some c) : t = u := by
  induction hr with
  | init _ => cases ht
  | step hr hst ih =>
    have hnew := fun hc => hmark _ _ _ _ _ c hr (step_cases hst) hc
    rcases List.mem_cons.1 ht with rfl | ht <;> rcases List.mem_cons.1 hu with rfl | hu
    · rfl
    · exact absurd huc (hnew htc u hu)
    · exact absurd htc (hnew huc t ht)
    · exact ih ht hu

theorem Runs.enters_once (hr : Runs H h w) {c : CallId} {t u : Moment} (ht : t ∈ h) (hu : u ∈ h)
    (htc : t.event.enters? = some c) (huc : u.event.enters? = some c) : t = u := by
  refine Runs.marked_once ?_ hr ht hu htc huc
  intro h w e o w' c hr hst hc t ht
  exact ((Runs.unspawned hr).absent c (enters_step hst hc).1 t ht).1

theorem Runs.starts_once (hr : Runs H h w) {c : CallId} {t u : Moment} (ht : t ∈ h) (hu : u ∈ h)
    (htc : t.event.starts? = some c) (huc : u.event.starts? = some c) : t = u := by
  refine Runs.marked_once ?_ hr ht hu htc huc
  intro h w e o w' c hr hst hc t ht
  obtain ⟨⟨a, hp⟩, -⟩ := starts_step hst hc
  exact (Runs.unspawned hr).idle c a _ hp rfl t ht

/-! ### What a plugin process runs -/

/-- The process runs what the binary's path held when its call spawned it. -/
def Spawned (h : History) (w : World) (c : CallId) (a : Admitted) (child : Child) : Prop :=
  ∃ t ∈ h, t.event.starts? = some c ∧ ∃ p, w.processes.lookup child = some p ∧
    t.pre.files a.binaryPath = .ok p.image

theorem Spawned.step {c : CallId} {a : Admitted} {child : Child} (hs : Spawned h w c a child)
    (hst : Step H w e o w') : Spawned (⟨w, e, o, w'⟩ :: h) w' c a child := by
  obtain ⟨t, ht, hstart, p, hp, hread⟩ := hs
  obtain ⟨K, hK⟩ := (step_custody hst).evolves
  obtain ⟨p', hp', himage, -⟩ := hK.keep child p hp
  exact ⟨t, List.mem_cons_of_mem _ ht, hstart, p', hp', himage ▸ hread⟩

/-- The child of a running call was with it before the step, or the step spawned it. -/
theorem child_step (hst : Step H w e o w') {c : CallId} {a : Admitted} {q : Phase} {child : Child}
    (hq : w'.calls.lookup c = some (.running a q)) (hchild : q.child? = some child) :
    (∃ p, w.calls.lookup c = some (.running a p) ∧ p.child? = some child) ∨
      Spawned (⟨w, e, o, w'⟩ :: h) w' c a child := by
  rcases hst.running_cases hq with he | ⟨-, hq⟩ | ⟨rfl, -, -⟩
  · cases hst with
    | enter | reject | keepalive | release | status | exit | write => cases he
    | connectAgain hc =>
      obtain rfl := Option.some.inj he
      exact .inl ⟨q, hq, hchild⟩
    | spawn hc hp hf hd =>
      obtain rfl := Option.some.inj he
      simp only [setCall_calls, HashMap.lookup_insert, if_true, Option.some.injEq, Call.running.injEq] at hq
      obtain ⟨rfl, rfl⟩ := hq
      obtain rfl := Option.some.inj hchild
      exact .inr ⟨_, List.mem_cons_self, rfl, _, Finmap.lookup_insert .., hf⟩
    | connect hc | describe hc | create hc =>
      obtain rfl := Option.some.inj he
      simp only [setCall_calls, HashMap.lookup_insert, if_true, Option.some.injEq, Call.running.injEq] at hq
      obtain ⟨rfl, rfl⟩ := hq
      exact .inl ⟨_, hc, hchild⟩
    | _ hc =>
      obtain rfl := Option.some.inj he
      simp only [setCall_calls, HashMap.lookup_insert, if_true, Option.some.injEq] at hq
      cases hq <;> cases hchild
  · exact .inl ⟨q, hq, hchild⟩
  · cases hchild

theorem Runs.spawned (hr : Runs H h w) : ∀ c a p child, w.calls.lookup c = some (.running a p) →
    p.child? = some child → Spawned h w c a child := by
  refine Machine.Run.invariant hereditary_true (I := fun h w => ∀ c a p child,
    w.calls.lookup c = some (.running a p) → p.child? = some child → Spawned h w c a child) ?_ ?_ hr trivial
  · rintro _ ⟨files, rfl⟩ c a p child hc
    simp [World.start] at hc
  · intro h w e o w' _ _ hI hst c a q child hq hchild
    rcases child_step (step_cases hst) hq hchild with ⟨p, hp, hchild⟩ | hs
    · exact (hI c a p child hp hchild).step (step_cases hst)
    · exact hs

/-- The contents that a running call hashed. -/
theorem Runs.hashed (hr : Runs H h w) {c : CallId} {a : Admitted} {p : Phase}
    (hc : w.calls.lookup c = some (.running a p)) : ∃ binary, Hashed H h c a binary := by
  obtain ⟨t, ht, hev, hv⟩ := (Runs.allAsked hr).calls c a p hc
  obtain ⟨-, hfp⟩ := takeLeaseValidate_eq_ok hv
  cases hread : t.pre.files a.binaryPath with
  | ok binary => exact ⟨binary, t, ht, hev, hv, hread⟩
  | error err => simp [FixtureFingerprint.compute, canonicalEncoding, a.plugin_eq, hashPluginBinary, hread] at hfp

/-! ### The stored fixtures -/

/-- A step that does not store over a rewritten binary keeps the property. -/
theorem ranHashed_step (hr : Runs H h w) (hI : RanHashed H h w) (hst : Step H w e o w')
    (hC : ¬ StoresRewritten h ⟨w, e, o, w'⟩) : RanHashed H (⟨w, e, o, w'⟩ :: h) w' := by
  obtain ⟨K, hK⟩ := (step_custody hst).evolves
  intro fp r' hr'
  rcases record_step hst fp with hsame | ⟨x, hx, hxfp, hnew⟩
  · rw [hr', Option.map_some] at hsame
    obtain ⟨r, hr, hfixed⟩ := Option.map_eq_some_iff.1 hsame.symm
    obtain ⟨i, hi, p, hfp, hchild, hp, hhashed, hcompute⟩ := hI fp r hr
    obtain ⟨p', hp', himage, -⟩ := hK.keep i.child p hp
    have hplugin : r.plugin = r'.plugin := by simpa [FixtureRecord.fixed] using congrArg FixtureRecord.plugin hfixed
    refine ⟨i, mem_instances_cons hi _, p', hfp, hplugin ▸ hchild, hp', ?_, ?_⟩ <;> rw [himage]
    · exact hhashed.cons _
    · exact hcompute
  · obtain ⟨a, plugin, result⟩ := x
    obtain ⟨c, id, hev, hc⟩ := stores?_eq_some.1 hx
    simp only at hev hc hxfp hnew
    obtain ⟨i, hi, rfl, rfl, hchild, -⟩ := (Runs.provenance hr).born c a plugin.child result (work_call hc)
    obtain ⟨binary, u, hu, hentered, hv, hread⟩ := Runs.hashed hr hc
    obtain ⟨t, ht, hstart, p, hp, himage⟩ := Runs.spawned hr _ _ _ _ hc rfl
    obtain ⟨p', hp', himage', -⟩ := hK.keep _ p hp
    have hsame : t.pre.files i.admitted.binaryPath = u.pre.files i.admitted.binaryPath := by
      by_contra hne
      refine hC ⟨i.call, ?_, _, hx, u, hu, by rw [hentered]; rfl, t, ht, hstart, hne⟩
      rw [hev]
      rfl
    obtain rfl : binary = p'.image := by
      rw [himage, hread, Except.ok.injEq] at hsame
      rw [← hsame, himage']
    have hhashed : Hashed H h i.call i.admitted p'.image := ⟨u, hu, hentered, hv, hread⟩
    rw [hnew, Option.some.injEq] at hr'
    subst hr'
    exact ⟨i, mem_instances_cons hi _, p', hxfp, hchild, hchild ▸ hp', hhashed.cons _, hxfp ▸ hhashed.compute⟩

/-- Storing over a rewritten binary breaks the property. -/
theorem not_ranHashed (hr : Runs H h w) (hst : (daemon H).step w e = some (o, w'))
    (hP : RanHashed H (⟨w, e, o, w'⟩ :: h) w') : ¬ StoresRewritten h ⟨w, e, o, w'⟩ := by
  rintro ⟨c, hcall, ⟨a, plugin, result⟩, hx, u, hu, hentered, t, ht, hstart, hne⟩
  obtain ⟨c', id, hev, hc⟩ := stores?_eq_some.1 hx
  simp only at hev hc hcall hne
  obtain rfl : c' = c := by simpa [hev, Event.call?] using hcall
  have hr' : Runs H (⟨w, e, o, w'⟩ :: h) w' := .step hr hst
  have hst' : Step H w e o w' := step_cases hst
  have hstored : w'.state.fixtures.lookup a.fp = some (newRecord a plugin result) := by
    rw [hev] at hst'
    cases hst' with
    | insert hc' =>
      rw [hc] at hc'
      obtain ⟨rfl, rfl, rfl⟩ : _ = a ∧ _ = plugin ∧ _ = result := by simpa [eq_comm] using hc'
      simp [insert_fixtures]
  obtain ⟨i, hi, p', -, hchild, hp', hhashed, -⟩ := hP a.fp _ hstored
  obtain ⟨j, hj, rfl, rfl, hjchild, -⟩ := (Runs.provenance hr).born c' a plugin.child result (work_call hc)
  obtain rfl : i = j := by
    refine (Runs.provenance hr').eq_of_child hi (mem_instances_cons hj _) ?_
    rw [hchild, hjchild]
    rfl
  obtain ⟨u', hu', hentered', -, hread⟩ := hhashed
  obtain rfl : u' = u :=
    Runs.enters_once hr' hu' (List.mem_cons_of_mem _ hu) (by rw [hentered']; rfl) hentered
  obtain ⟨t', ht', hstart', p, hp, himage⟩ := Runs.spawned hr _ _ _ _ hc rfl
  obtain rfl : t' = t := Runs.starts_once hr ht' ht hstart' hstart
  obtain ⟨K, hK⟩ := (step_custody hst').evolves
  obtain ⟨p'', hp'', himage', -⟩ := hK.keep _ p hp
  rw [← hjchild, hp', Option.some.injEq] at hp''
  subst hp''
  exact hne (by rw [himage, hread, himage'])

/-- Every stored fixture was built by the bytes its fingerprint names in exactly the
runs in which no call stores a fixture whose plugin binary was rewritten between its
hash and its spawn. -/
theorem ranHashed_iff (hr : Runs H h w) :
    Throughout (RanHashed H) h w ↔ Along (fun h t => ¬ StoresRewritten h t) h := by
  refine Machine.Run.throughout_iff (I := RanHashed H) hereditary_true ?init ?keep ?sound ?fails hr trivial
  case init =>
    rintro _ ⟨files, rfl⟩ fp r hl
    simp [World.start] at hl
  case keep =>
    intro h w e o w' hr _ hI hst hC
    exact ranHashed_step hr hI (step_cases hst) hC
  case sound => exact fun h w _ _ hI => hI
  case fails => exact fun h w e o w' hr _ _ hst hP => not_ranHashed hr hst hP

/-- The binary is rewritten after the spawn, which changes nothing for this call. -/
theorem ranHashed_iff_sample :
    let run := sampleRun (sampleCheck 0 "redis" "alice" "l0" ++
      [.spawn 0 "0123456789abcdef0123456789abcdef" (.started ⟨0⟩ ⟨1000, 0⟩), .write "/plugin" (.ok [1]),
        .tryConnect 0 .ok, .describe 0 (.ok ()),
        .createFixture 0 ⟨"fixture"⟩ (.ok [.ok ⟨4, [], some ⟨sampleOutputs "6379", 60, [], []⟩⟩]),
        .insert 0 ⟨"l0"⟩])
    Throughout (RanHashed sampleHost) run.1 run.2 := by
  intro run
  exact (ranHashed_iff (sampleRun_runs _)).2 (by decide)

/-- The binary is rewritten between the hash and the spawn. -/
theorem not_ranHashed_rewritten : ¬ ∀ (H : Host) (h : History) (w : World), Runs H h w → RanHashed H h w := by
  intro hall
  let run := sampleRun ([.takeLease 0 (sampleRequest "redis" "alice"), .write "/plugin" (.ok [1]),
    .reuse 0 ⟨"l0"⟩, .spawn 0 "0123456789abcdef0123456789abcdef" (.started ⟨0⟩ ⟨1000, 0⟩),
    .tryConnect 0 .ok, .describe 0 (.ok ()),
    .createFixture 0 ⟨"fixture"⟩ (.ok [.ok ⟨4, [], some ⟨sampleOutputs "6379", 60, [], []⟩⟩]),
    .insert 0 ⟨"l0"⟩])
  have hstored : run.2.state.fixtures.lookup (sampleFingerprint "redis") =
      some ⟨sampleOutputs "6379", ⟨some .clientRestricted, 1⟩, "alice", 1, ⟨⟨0⟩⟩⟩ := by decide
  have hran : run.2.processes.lookup ⟨0⟩ = some ⟨[1], none, false⟩ := by decide
  have hread : ∀ t ∈ run.1, t.event.enters?.isSome = true → t.pre.files "/plugin" = .ok [] := by decide
  have hpath : ∀ i ∈ instances run.1, i.admitted.binaryPath = "/plugin" := by decide
  obtain ⟨i, hi, p, -, hchild, hp, ⟨t, ht, hev, -, himage⟩, -⟩ :=
    hall sampleHost run.1 run.2 (sampleRun_runs _) _ _ hstored
  rw [hchild, hran, Option.some.injEq] at hp
  rw [hpath i hi, hread t ht (by rw [hev]; rfl), Except.ok.injEq] at himage
  subst hp
  cases himage

end RulesSystemtest
