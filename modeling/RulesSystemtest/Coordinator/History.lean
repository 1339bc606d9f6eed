import RulesSystemtest.Library.Ledger
import RulesSystemtest.Coordinator.Custody

/-! What a run has handed out. The ledger of a history lists its grants and its
releases; a lease is outstanding when its grant is held there. `Effect` says what
one step does to the fixtures, the leases and the ledger together. -/

namespace RulesSystemtest

open Library

def Obs.entry? : Obs → Option (Ledger.Entry LeaseId Grant)
  | .granted id g _ => some (.grant id g)
  | .released leaseId => some (.release ⟨leaseId⟩)
  | _ => none

def ledger (h : History) : List (Ledger.Entry LeaseId Grant) := h.filterMap fun t => t.obs.entry?

/-- `take_lease` returned the lease `id`, as `g` tells, and nobody released it since. -/
def Outstanding (h : History) (id : LeaseId) (g : Grant) : Prop := (id, g) ∈ Ledger.held (ledger h)

/-- `LeaseId::random` never repeats. -/
def FreshIds (h : History) : Prop := (Ledger.issued (ledger h)).Nodup

/-- The number of leases outstanding on the instance of a plugin process. -/
def outstandingOn (h : History) (child : Child) : ℕ :=
  Ledger.load (fun g : Grant => g.child = child) (ledger h)

instance (h : History) (id : LeaseId) (g : Grant) : Decidable (Outstanding h id g) :=
  inferInstanceAs (Decidable (_ ∈ _))

instance (h : History) : Decidable (FreshIds h) := inferInstanceAs (Decidable (List.Nodup _))

variable {H : Host} {h : History} {w w' : World} {e : Event} {o : Obs}

theorem ledger_quiet (ho : o.entry? = none) : ledger (⟨w, e, o, w'⟩ :: h) = ledger h := by
  simp [ledger, ho]

theorem ledger_entry {x : Ledger.Entry LeaseId Grant} (ho : o.entry? = some x) :
    ledger (⟨w, e, o, w'⟩ :: h) = x :: ledger h := by
  simp [ledger, ho]

theorem freshIds_hereditary : Hereditary FreshIds := by
  intro t h hf
  unfold FreshIds at hf
  cases ho : t.obs.entry? with
  | none => rwa [ledger_quiet ho] at hf
  | some x =>
    rw [ledger_entry ho] at hf
    cases x with
    | grant id g => exact (List.nodup_cons.1 hf).2
    | release id => exact hf

/-- Under fresh ids, what is granted now was not issued before. -/
theorem FreshIds.not_issued {id : LeaseId} {g : Grant} (hf : FreshIds (⟨w, e, o, w'⟩ :: h))
    (ho : o.entry? = some (.grant id g)) : id ∉ Ledger.issued (ledger h) := by
  unfold FreshIds at hf
  rw [ledger_entry ho] at hf
  exact (List.nodup_cons.1 hf).1

theorem FreshIds.not_outstanding {id : LeaseId} {g : Grant} (hf : FreshIds (⟨w, e, o, w'⟩ :: h))
    (ho : o.entry? = some (.grant id g)) (g' : Grant) : ¬ Outstanding h id g' :=
  fun hh => hf.not_issued ho (Ledger.mem_issued_of_mem_held hh)

theorem outstanding_quiet (ho : o.entry? = none) {id : LeaseId} {g : Grant} :
    Outstanding (⟨w, e, o, w'⟩ :: h) id g ↔ Outstanding h id g := by
  unfold Outstanding
  rw [ledger_quiet ho]

theorem outstanding_grant {id id' : LeaseId} {g g' : Grant} (ho : o.entry? = some (.grant id g)) :
    Outstanding (⟨w, e, o, w'⟩ :: h) id' g' ↔ id' = id ∧ g' = g ∨ Outstanding h id' g' := by
  unfold Outstanding
  rw [ledger_entry ho]
  simp [Ledger.held]

theorem outstanding_release {id id' : LeaseId} {g' : Grant} (ho : o.entry? = some (.release id)) :
    Outstanding (⟨w, e, o, w'⟩ :: h) id' g' ↔ Outstanding h id' g' ∧ id' ≠ id := by
  unfold Outstanding
  rw [ledger_entry ho]
  exact Ledger.mem_held_release

/-- A lease outstanding after a step was so before it, or is granted by it. -/
theorem outstanding_step {id : LeaseId} {g : Grant} (hg : Outstanding (⟨w, e, o, w'⟩ :: h) id g) :
    o.entry? = some (.grant id g) ∨ Outstanding h id g := by
  cases ho : o.entry? with
  | none => exact .inr ((outstanding_quiet ho).1 hg)
  | some entry =>
    cases entry with
    | release id' => exact .inr ((outstanding_release ho).1 hg).1
    | grant id' g' =>
      rcases (outstanding_grant ho).1 hg with ⟨rfl, rfl⟩ | hg
      · exact .inl rfl
      · exact .inr hg

/-! ### What a step does to the state and the ledger -/

inductive Effect (w : World) (o : Obs) (w' : World) : Prop where
  | quiet (hs : w'.state = w.state) (ho : o.entry? = none)
  | attach (c : CallId) (a : Admitted) (record : FixtureRecord) (id : LeaseId)
      (hc : w.calls.lookup c = some (.running a .fingerprinted))
      (hf : findReusable w.state a = some record)
      (hs : w'.state = (takeLeaseAttach w.state a record id).2)
      (ho : o.entry? = some (.grant id ⟨c, a, record.plugin.child, record.outputs⟩))
  | insert (c : CallId) (a : Admitted) (plugin : PluginProcess) (result : FixtureResult) (id : LeaseId)
      (hc : w.calls.lookup c = some (.running a (.created plugin result)))
      (hs : w'.state = (takeLeaseInsert w.state a plugin result id).2)
      (ho : o.entry? = some (.grant id ⟨c, a, plugin.child, result.outputs⟩))
  | release (leaseId : String) (hs : w'.state = releaseLease w.state leaseId)
      (ho : o.entry? = some (.release ⟨leaseId⟩))

theorem step_effect (h : Step H w e o w') : Effect w o w' := by
  cases h with
  | attach hc hf => exact .attach _ _ _ _ hc hf rfl rfl
  | insert hc => exact .insert _ _ _ _ _ hc (by simp) rfl
  | release => exact .release _ rfl rfl
  | describeFail | createFail | cancelGuarded => exact .quiet (by simp) rfl
  | _ => exact .quiet rfl rfl

/-- What a step stores: under whose fingerprint, with which plugin and result. -/
def Moment.stores? (t : Moment) : Option (Admitted × PluginProcess × FixtureResult) :=
  match t.event with
  | .insert c _ =>
    match t.pre.calls.lookup c with
    | some (.running a (.created plugin result)) => some (a, plugin, result)
    | _ => none
  | _ => none

theorem stores?_eq_some {t : Moment} {a : Admitted} {plugin : PluginProcess} {result : FixtureResult} :
    t.stores? = some (a, plugin, result) ↔ ∃ c id, t.event = .insert c id ∧
      t.pre.calls.lookup c = some (.running a (.created plugin result)) := by
  obtain ⟨pre, e, o, post⟩ := t
  unfold Moment.stores?
  constructor
  · intro h
    split at h
    · next c id heq =>
      split at h
      · next hc =>
        simp only [Option.some.injEq, Prod.mk.injEq] at h
        obtain ⟨rfl, rfl, rfl⟩ := h
        exact ⟨c, id, heq, hc⟩
      · cases h
    · cases h
  · rintro ⟨c, id, rfl, hc⟩
    simp only at hc
    simp only [hc]

/-- A record apart from its counter. -/
def FixtureRecord.fixed (r : FixtureRecord) : FixtureRecord := { r with usedSlots := 0 }

/-- Only an insertion changes more of a stored record than its counter. -/
theorem record_step (hst : Step H w e o w') (fp : FixtureFingerprint) :
    (w'.state.fixtures.lookup fp).map FixtureRecord.fixed = (w.state.fixtures.lookup fp).map .fixed ∨
      ∃ x ∈ Moment.stores? ⟨w, e, o, w'⟩, x.1.fp = fp ∧
        w'.state.fixtures.lookup fp = some (newRecord x.1 x.2.1 x.2.2) := by
  cases hst with
  | @insert c a plugin result id hc =>
    by_cases hfp : fp = a.fp
    · exact .inr ⟨_, stores?_eq_some.2 ⟨c, id, rfl, hc⟩, hfp.symm, by simp [insert_fixtures, hfp]⟩
    · exact .inl (by simp [insert_fixtures, hfp])
  | @attach c a record id hc hf =>
    refine .inl ?_
    have hrec := (findReusable_eq_some.1 hf).1
    by_cases hfp : fp = a.fp
    · subst hfp
      simp [attach_fixtures, hrec, FixtureRecord.fixed]
    · simp [attach_fixtures, hfp]
  | release =>
    refine .inl ?_
    simp only [release_fixtures]
    split
    · rw [Option.map_map]
      rfl
    · rfl
  | describeFail | createFail | cancelGuarded => exact .inl (by simp)
  | _ => exact .inl rfl

/-! ### Where a run starts -/

theorem runs_start (files : FileSystem) : Runs H [] (World.start files) :=
  Machine.Run.init (M := daemon H) (Exists.intro files rfl)

/-! ### A sample deployment

One readable plugin binary, which is empty, and two recipes for it that differ in
their `impl_id`. The digests are those of the strings hashed here. -/

def emptyDigest : Bytes :=
  [0xe3, 0xb0, 0xc4, 0x42, 0x98, 0xfc, 0x1c, 0x14, 0x9a, 0xfb, 0xf4, 0xc8, 0x99, 0x6f, 0xb9, 0x24,
    0x27, 0xae, 0x41, 0xe4, 0x64, 0x9b, 0x93, 0x4c, 0xa4, 0x95, 0x99, 0x1b, 0x78, 0x52, 0xb8, 0x55]

def redisDigest : Bytes :=
  [0xee, 0x18, 0x9d, 0xd3, 0x5f, 0x58, 0x80, 0xa9, 0x54, 0xd2, 0x21, 0x37, 0xfa, 0x42, 0xf2, 0x64,
    0x40, 0x5f, 0x39, 0xb7, 0x4a, 0xbb, 0x32, 0xb1, 0x3b, 0x24, 0x49, 0x94, 0x61, 0xe0, 0xa4, 0x33]

def mysqlDigest : Bytes :=
  [0x00, 0x74, 0x15, 0xa4, 0x01, 0x8b, 0xc4, 0xd7, 0xbc, 0x6d, 0xed, 0xf9, 0x6c, 0xc2, 0xaf, 0x64,
    0x29, 0x1e, 0x9e, 0xa9, 0x6f, 0x5d, 0x57, 0x62, 0xa8, 0x49, 0x83, 0xb6, 0xc4, 0xfc, 0x85, 0xb8]

def sampleDesc (implId : String) : FixtureDescription where
  implId := implId
  plugin := some (.binaryPath "/plugin")
  inputs := ∅
  imageInputs := []
  fileInputs := []
  sharing := none
  startupTimeoutSeconds := 0
  name := "cache"

def sampleEncoding (implId : String) : Bytes :=
  { sampleDesc implId with name := "", plugin := some (.binaryPath (hexEncode emptyDigest)) }.encodeToVec

def sampleHost : Host where
  sha256 b :=
    if b = [] then emptyDigest else if b = sampleEncoding "redis" then redisDigest else mysqlDigest
  instanceDir := "/tmp/systemtest"

def sampleFiles : FileSystem := fun path =>
  if path = "/plugin" then .ok [] else .error "No such file or directory (os error 2)"

def sampleOutputs (port : String) : BTreeMap Value := (∅ : BTreeMap Value).insert "main" ⟨some (.str port)⟩

def sampleRequest (implId client : String) : TakeLeaseRequest := ⟨some (sampleDesc implId), client, client, 60, 1⟩

def sampleFingerprint (implId : String) : FixtureFingerprint :=
  ⟨hexEncode (sampleHost.sha256 (sampleEncoding implId))⟩

def sampleAdmitted (implId client : String) : Admitted where
  req := sampleRequest implId client
  desc := sampleDesc implId
  binaryPath := "/plugin"
  fp := sampleFingerprint implId
  fixture_eq := rfl
  plugin_eq := rfl

/-- A call that reaches the reuse check. -/
def sampleCheck (c : CallId) (implId client lease : String) : List Event :=
  [.takeLease c (sampleRequest implId client), .reuse c ⟨lease⟩]

/-- A call that goes on to provision process `c`, if there is nothing to attach to. -/
def sampleTake (c : CallId) (implId client lease port : String) : List Event :=
  sampleCheck c implId client lease ++
    [.spawn c "0123456789abcdef0123456789abcdef" (.started ⟨c⟩ ⟨1000, 0⟩), .tryConnect c .ok,
      .describe c (.ok ()),
      .createFixture c ⟨"fixture"⟩ (.ok [.ok ⟨4, [], some ⟨sampleOutputs port, 60, [], []⟩⟩]),
      .insert c ⟨lease⟩]

def sampleRun (es : List Event) : History × World := (daemon sampleHost).replay ([], .start sampleFiles) es

theorem sampleRun_runs (es : List Event) : Runs sampleHost (sampleRun es).1 (sampleRun es).2 :=
  Machine.Run.replay (r := ([], World.start sampleFiles)) (runs_start sampleFiles) es

end RulesSystemtest
