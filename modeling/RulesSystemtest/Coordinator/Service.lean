import RulesSystemtest.Coordinator.PluginClient

/-! The coordinator's state and the sections of its service that run under one
lock, or on no shared state at all. `take_lease` has two such sections: the reuse
check and the insertion of a provisioned fixture. Drawn ids are arguments. -/

namespace RulesSystemtest

structure LeaseId where
  value : String
  deriving DecidableEq

structure LeaseRecord where
  fingerprint : FixtureFingerprint
  deriving DecidableEq

/-- A provisioned fixture, cached under its fingerprint. -/
structure FixtureRecord where
  outputs : BTreeMap Value
  sharing : Sharing
  creatingClientId : String
  usedSlots : Int64
  plugin : PluginProcess
  deriving DecidableEq

structure State where
  fixtures : HashMap FixtureFingerprint FixtureRecord
  leases : HashMap LeaseId LeaseRecord
  deriving DecidableEq

inductive Code where
  | invalidArgument
  | unimplemented
  | internal
  | notFound
  deriving DecidableEq

structure Status where
  code : Code
  message : String
  deriving DecidableEq

/-- Whether `sharing` admits reuse. -/
def sharingAdmits (sharing : Sharing) (creatorClientId requesterClientId : String) : Bool :=
  match sharing.useScope with
  | some .unrestricted => true
  | some .clientRestricted | none => creatorClientId = requesterClientId
  | some .singleUse => false

/-! ### take_lease -/

/-- What `take_lease` has established once the fingerprint is computed. -/
structure Admitted where
  req : TakeLeaseRequest
  desc : FixtureDescription
  binaryPath : String
  fp : FixtureFingerprint
  fixture_eq : req.fixture = some desc
  plugin_eq : desc.plugin = some (.binaryPath binaryPath)
  deriving DecidableEq

/-- Up to the fingerprint: no shared state, and no await. -/
def takeLeaseValidate (H : Host) (files : FileSystem) (req : TakeLeaseRequest) : Except Status Admitted :=
  match hfixture : req.fixture with
  | none => .error ⟨.invalidArgument, "fixture description is required"⟩
  | some desc =>
    match hplugin : desc.plugin with
    | some (.binaryPath path) =>
      match FixtureFingerprint.compute H files desc path with
      | .ok fp => .ok ⟨req, desc, path, fp, hfixture, hplugin⟩
      | .error e => .error ⟨.internal, "computing fingerprint: " ++ e⟩
    | some (.containerRef _) =>
      .error ⟨.unimplemented,
        "remote-mode (container_ref) plugins are not supported by this scaffold coordinator"⟩
    | none => .error ⟨.invalidArgument, "fixture.plugin is required"⟩

def maxSlots (sharing : Sharing) : Int64 := max sharing.maximumConcurrentConnections 1

/-- The stored fixture that the reuse check lets this client attach to. -/
def findReusable (st : State) (a : Admitted) : Option FixtureRecord :=
  match st.fixtures.lookup a.fp with
  | some record =>
    if sharingAdmits record.sharing record.creatingClientId a.req.clientId ∧
        record.usedSlots < maxSlots record.sharing then some record
    else none
  | none => none

/-- The reuse section, when the check found `record`. -/
def takeLeaseAttach (st : State) (a : Admitted) (record : FixtureRecord) (leaseId : LeaseId) :
    TakeLeaseResponse × State :=
  (⟨LeaseStatus.succeeded.toInt32, leaseId.value, record.outputs, ["connecting to existing fixture"]⟩,
    { fixtures := st.fixtures.insert a.fp { record with usedSlots := record.usedSlots + 1 }
      leases := st.leases.insert leaseId ⟨a.fp⟩ })

def pluginSocketDir (H : Host) : String := H.instanceDir ++ "/plugins"

/-- A fresh socket path for a plugin instance, from the hex digits of a drawn id. -/
def pluginSocketPath (H : Host) (uuid : String) : String :=
  pluginSocketDir H ++ "/" ++ String.ofList (uuid.toList.take 8) ++ ".sock"

def startupTimeout (desc : FixtureDescription) : UInt64 :=
  if desc.startupTimeoutSeconds > 0 then desc.startupTimeoutSeconds.toUInt64 else 300

def createRequest (a : Admitted) (fixtureId : FixtureId) : CreateRequest where
  implId := a.desc.implId
  inputs := a.desc.inputs
  metadata := some ⟨fixtureId.value, a.req.clientId, a.req.owner, ∅⟩

/-- The policy a record keeps: an unset one is private with a single slot. -/
def recordedSharing (desc : FixtureDescription) : Sharing :=
  desc.sharing.getD ⟨some .clientRestricted, 1⟩

def newRecord (a : Admitted) (plugin : PluginProcess) (result : FixtureResult) : FixtureRecord where
  outputs := result.outputs
  sharing := recordedSharing a.desc
  creatingClientId := a.req.clientId
  usedSlots := 1
  plugin := plugin

/-- The insertion section. A record stored before under the fingerprint is dropped. -/
def takeLeaseInsert (st : State) (a : Admitted) (plugin : PluginProcess) (result : FixtureResult)
    (leaseId : LeaseId) : TakeLeaseResponse × State :=
  (⟨LeaseStatus.succeeded.toInt32, leaseId.value, result.outputs, []⟩,
    { fixtures := st.fixtures.insert a.fp (newRecord a plugin result)
      leases := st.leases.insert leaseId ⟨a.fp⟩ })

/-! ### keepalive, release_lease, status -/

def keepalive (st : State) (leaseId : String) : Except Status Unit :=
  match st.leases.lookup ⟨leaseId⟩ with
  | none => .error ⟨.notFound, "unknown lease_id"⟩
  | some _ => .ok ()

/-- Always succeeds; an unknown lease is ignored. -/
def releaseLease (st : State) (leaseId : String) : State :=
  match st.leases.lookup ⟨leaseId⟩ with
  | some lease =>
    match st.fixtures.lookup lease.fingerprint with
    | some record =>
      { fixtures := st.fixtures.insert lease.fingerprint
          { record with usedSlots := max (record.usedSlots - 1) 0 }
        leases := st.leases.erase ⟨leaseId⟩ }
    | none => { st with leases := st.leases.erase ⟨leaseId⟩ }
  | none => st

def status (st : State) (leaseId : String) : Except Status StatusResponse :=
  match st.leases.lookup ⟨leaseId⟩ with
  | none => .error ⟨.notFound, "unknown lease_id"⟩
  | some lease =>
    let outputs := ((st.fixtures.lookup lease.fingerprint).map (·.outputs)).getD ∅
    .ok ⟨LeaseStatus.succeeded.toInt32, outputs, []⟩

/-! ### What each section does to the two maps -/

variable {st : State} {a : Admitted} {record : FixtureRecord} {plugin : PluginProcess}
  {result : FixtureResult} {id : LeaseId} {leaseId : String}

theorem takeLeaseValidate_eq_ok {H : Host} {files : FileSystem} {req : TakeLeaseRequest}
    (h : takeLeaseValidate H files req = .ok a) :
    a.req = req ∧ FixtureFingerprint.compute H files a.desc a.binaryPath = .ok a.fp := by
  unfold takeLeaseValidate at h
  split at h
  · cases h
  · split at h
    · split at h
      · next hfp =>
        obtain rfl := Except.ok.inj h
        exact ⟨rfl, hfp⟩
      · cases h
    · cases h
    · cases h

/-- The reuse check finds a record exactly when the stored one admits the client
and has a free slot. -/
theorem findReusable_eq_some : findReusable st a = some record ↔
    st.fixtures.lookup a.fp = some record ∧
      sharingAdmits record.sharing record.creatingClientId a.req.clientId = true ∧
      record.usedSlots < maxSlots record.sharing := by
  unfold findReusable
  cases hl : st.fixtures.lookup a.fp with
  | none => simp
  | some r =>
    by_cases hr : sharingAdmits r.sharing r.creatingClientId a.req.clientId ∧ r.usedSlots < maxSlots r.sharing
    · simp only [hr, and_self, if_true, Option.some.injEq]
      constructor
      · rintro rfl
        exact ⟨rfl, hr⟩
      · exact fun h => h.1
    · simp only [hr, if_false, reduceCtorEq, Option.some.injEq, false_iff]
      rintro ⟨rfl, h⟩
      exact hr h

theorem attach_fixtures (fp : FixtureFingerprint) :
    (takeLeaseAttach st a record id).2.fixtures.lookup fp =
      if fp = a.fp then some { record with usedSlots := record.usedSlots + 1 } else st.fixtures.lookup fp :=
  HashMap.lookup_insert ..

theorem attach_leases (id' : LeaseId) : (takeLeaseAttach st a record id).2.leases.lookup id' =
    if id' = id then some ⟨a.fp⟩ else st.leases.lookup id' := HashMap.lookup_insert ..

theorem insert_fixtures (fp : FixtureFingerprint) :
    (takeLeaseInsert st a plugin result id).2.fixtures.lookup fp =
      if fp = a.fp then some (newRecord a plugin result) else st.fixtures.lookup fp :=
  HashMap.lookup_insert ..

theorem insert_leases (id' : LeaseId) : (takeLeaseInsert st a plugin result id).2.leases.lookup id' =
    if id' = id then some ⟨a.fp⟩ else st.leases.lookup id' := HashMap.lookup_insert ..

theorem release_leases (id' : LeaseId) : (releaseLease st leaseId).leases.lookup id' =
    if id' = ⟨leaseId⟩ then none else st.leases.lookup id' := by
  unfold releaseLease
  cases hl : st.leases.lookup ⟨leaseId⟩ with
  | none =>
    by_cases h : id' = ⟨leaseId⟩
    · rw [if_pos h, h, hl]
    · rw [if_neg h]
  | some lease =>
    cases hf : st.fixtures.lookup lease.fingerprint <;> simp only [hf] <;> exact HashMap.lookup_erase ..

/-- Only the record under the released lease's fingerprint changes, by one slot. -/
theorem release_fixtures (fp : FixtureFingerprint) : (releaseLease st leaseId).fixtures.lookup fp =
    if st.leases.lookup ⟨leaseId⟩ = some ⟨fp⟩ then
      (st.fixtures.lookup fp).map fun r => { r with usedSlots := max (r.usedSlots - 1) 0 }
    else st.fixtures.lookup fp := by
  unfold releaseLease
  cases hl : st.leases.lookup ⟨leaseId⟩ with
  | none => simp
  | some lease =>
    obtain ⟨fp'⟩ := lease
    by_cases h : fp = fp'
    · subst h
      cases hf : st.fixtures.lookup fp <;> simp [hf]
    · have h' : (⟨fp'⟩ : LeaseRecord) ≠ ⟨fp⟩ := fun he => h (by simpa using he.symm)
      cases hf : st.fixtures.lookup fp' <;> simp [hf, h', h]

theorem keepalive_known {lease : LeaseRecord} (h : st.leases.lookup ⟨leaseId⟩ = some lease) :
    keepalive st leaseId = .ok () := by
  simp [keepalive, h]

theorem keepalive_unknown (h : st.leases.lookup ⟨leaseId⟩ = none) :
    keepalive st leaseId = .error ⟨.notFound, "unknown lease_id"⟩ := by
  simp [keepalive, h]

theorem status_known {lease : LeaseRecord} (h : st.leases.lookup ⟨leaseId⟩ = some lease)
    (hr : st.fixtures.lookup lease.fingerprint = some record) :
    status st leaseId = .ok ⟨LeaseStatus.succeeded.toInt32, record.outputs, []⟩ := by
  simp [status, h, hr]

theorem status_unknown (h : st.leases.lookup ⟨leaseId⟩ = none) :
    status st leaseId = .error ⟨.notFound, "unknown lease_id"⟩ := by
  simp [status, h]

end RulesSystemtest
