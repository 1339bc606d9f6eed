import RulesSystemtest.Library.Restriction
import RulesSystemtest.Coordinator.Scope

/-! Shadows. A world shadows another one when it holds just what a scope keeps of it,
under renamed lease ids. Each change of a world that the sections of the coordinator
make is either not seen by the shadow, or made by the same change of the shadow. -/

namespace RulesSystemtest

open Library

variable {S : Scope} {w u : World} {ρ : LeaseId → LeaseId} {K K' : CallId → Bool} {L L' : LeaseId → Bool}
  {C C' : Child → Bool}

/-! ### The store -/

/-- A state that holds the kept records and the leases in `L`, renamed. -/
structure StateShadow (S : Scope) (ρ : LeaseId → LeaseId) (L : LeaseId → Bool) (st su : State) : Prop where
  fixtures : Restricts id S.keeps st.fixtures.lookup su.fixtures.lookup
  leases : Restricts ρ (fun i _ => L i) st.leases.lookup su.leases.lookup
  range : ∀ id' r, su.leases.lookup id' = some r → ∃ i, id' = ρ i

variable {st su : State} {fp : FixtureFingerprint} {r : FixtureRecord} {i : LeaseId}

/-- A record stored and a lease granted on both sides. -/
theorem StateShadow.grant (hs : StateShadow S ρ L st su) (hρ : Function.Injective ρ)
    (hr : S.keeps fp r = true) (hL : L' i = true) (hother : ∀ j, j ≠ i → L' j = L j) :
    StateShadow S ρ L' ⟨st.fixtures.insert fp r, st.leases.insert i ⟨fp⟩⟩
      ⟨su.fixtures.insert fp r, su.leases.insert (ρ i) ⟨fp⟩⟩ where
  fixtures := by
    refine hs.fixtures.change (x := fp) Function.injective_id ?_ ?_ (fun _ _ => rfl) ?_
    · exact fun fp' hne => Finmap.lookup_insert_of_ne _ hne
    · exact fun fp' hne => Finmap.lookup_insert_of_ne _ hne
    · simp [Option.filter_some, hr]
  leases := by
    refine hs.leases.change (x := i) hρ ?_ ?_ ?_ ?_
    · exact fun j hne => Finmap.lookup_insert_of_ne _ hne
    · exact fun j hne => Finmap.lookup_insert_of_ne _ hne
    · exact fun j hne => funext fun _ => hother j hne
    · simp [Option.filter_some, hL]
  range id' lease hl := by
    rw [HashMap.lookup_insert] at hl
    split at hl
    · next heq => exact ⟨i, heq⟩
    · exact hs.range id' lease hl

/-- They are not seen where neither they nor the record stored before are kept. -/
theorem StateShadow.grant_unseen (hs : StateShadow S ρ L st su) (hr : S.keeps fp r = false)
    (hold : ∀ r₀, st.fixtures.lookup fp = some r₀ → S.keeps fp r₀ = false) (hL : L i = false) :
    StateShadow S ρ L ⟨st.fixtures.insert fp r, st.leases.insert i ⟨fp⟩⟩ su where
  fixtures := by
    refine hs.fixtures.unseen (x := fp) ?_ hold ?_
    · exact fun fp' hne => Finmap.lookup_insert_of_ne _ hne
    · intro r' hr'
      obtain rfl := Option.some.inj ((Finmap.lookup_insert _).symm.trans hr')
      exact hr
  leases :=
    hs.leases.unseen (x := i) (fun j hne => Finmap.lookup_insert_of_ne _ hne) (fun _ _ => hL) fun _ _ => hL
  range := hs.range

theorem StateShadow.lease_agrees (hs : StateShadow S ρ L st su) (hL : L i = true) :
    su.leases.lookup (ρ i) = st.leases.lookup i := hs.leases.agrees fun _ _ => hL

theorem StateShadow.release (hs : StateShadow S ρ L st su) (hρ : Function.Injective ρ) {leaseId : String}
    (hL : L ⟨leaseId⟩ = true) :
    StateShadow S ρ L (releaseLease st leaseId) (releaseLease su (ρ ⟨leaseId⟩).value) where
  fixtures fp := by
    have hlease : su.leases.lookup ⟨(ρ ⟨leaseId⟩).value⟩ = st.leases.lookup ⟨leaseId⟩ := hs.lease_agrees hL
    have hrec : su.fixtures.lookup fp = (st.fixtures.lookup fp).filter (S.keeps fp) := hs.fixtures fp
    change (releaseLease su _).fixtures.lookup fp = ((releaseLease st _).fixtures.lookup fp).filter (S.keeps fp)
    rw [release_fixtures, release_fixtures, hlease, hrec]
    split
    · cases st.fixtures.lookup fp with
      | none => rfl
      | some r => by_cases hk : S.keeps fp r = true <;> simp [Option.filter_some, hk, S.keeps_slots]
    · rfl
  leases := by
    refine hs.leases.change (x := ⟨leaseId⟩) hρ ?_ ?_ (fun _ _ => rfl) ?_
    · exact fun j hne => by rw [release_leases, if_neg hne]
    · exact fun j hne => by rw [release_leases, if_neg hne]
    · rw [release_leases, release_leases, if_pos rfl, if_pos rfl]
      rfl
  range id' lease hl := by
    rw [release_leases] at hl
    split at hl
    · cases hl
    · exact hs.range id' lease hl

theorem StateShadow.release_unseen (hs : StateShadow S ρ L st su) {leaseId : String} (hL : L ⟨leaseId⟩ = false)
    (hold : ∀ fp r, st.leases.lookup ⟨leaseId⟩ = some ⟨fp⟩ → st.fixtures.lookup fp = some r →
      S.keeps fp r = false) : StateShadow S ρ L (releaseLease st leaseId) su where
  fixtures fp := by
    refine (hs.fixtures fp).trans ?_
    change (st.fixtures.lookup fp).filter (S.keeps fp) = ((releaseLease st _).fixtures.lookup fp).filter (S.keeps fp)
    rw [release_fixtures]
    split
    · next hid =>
      cases hl : st.fixtures.lookup fp with
      | none => rfl
      | some r => simp [Option.filter_some, hold fp r hid hl, S.keeps_slots]
    · rfl
  leases := by
    refine hs.leases.unseen (x := ⟨leaseId⟩) ?_ (fun _ _ => hL) fun _ _ => hL
    exact fun j hne => by rw [release_leases, if_neg hne]
  range := hs.range

/-! ### The world -/

/-- A world that holds the calls in `K`, the leases in `L`, the processes in `C` and
the kept records. -/
structure Shadow (S : Scope) (ρ : LeaseId → LeaseId) (K : CallId → Bool) (L : LeaseId → Bool)
    (C : Child → Bool) (w u : World) : Prop where
  state : StateShadow S ρ L w.state u.state
  calls : Restricts id (fun c _ => K c) w.calls.lookup u.calls.lookup
  processes : Restricts id (fun child _ => C child) w.processes.lookup u.processes.lookup
  files : u.files = w.files

variable {c : CallId} {k : Call} {child : Child} {q : Process} {plugin : PluginProcess}

theorem Shadow.call (hs : Shadow S ρ K L C w u) (hK : K c = true) : u.calls.lookup c = w.calls.lookup c :=
  hs.calls.agrees fun _ _ => hK

theorem Shadow.process (hs : Shadow S ρ K L C w u) (hC : C child = true) :
    u.processes.lookup child = w.processes.lookup child := hs.processes.agrees fun _ _ => hC

theorem Shadow.setCall (hs : Shadow S ρ K L C w u) (hK : K' c = true) (hother : ∀ c', c' ≠ c → K' c' = K c') :
    Shadow S ρ K' L C (w.setCall c k) (u.setCall c k) where
  state := hs.state
  calls := by
    refine hs.calls.change (x := c) Function.injective_id ?_ ?_ ?_ ?_
    · exact fun c' hne => Finmap.lookup_insert_of_ne _ hne
    · exact fun c' hne => Finmap.lookup_insert_of_ne _ hne
    · exact fun c' hne => funext fun _ => hother c' hne
    · simp [Option.filter_some, hK]
  processes := hs.processes
  files := hs.files

theorem Shadow.setCall_unseen (hs : Shadow S ρ K L C w u) (hK : K c = false) :
    Shadow S ρ K L C (w.setCall c k) u where
  state := hs.state
  calls :=
    hs.calls.unseen (x := c) (fun _ hne => Finmap.lookup_insert_of_ne _ hne) (fun _ _ => hK) fun _ _ => hK
  processes := hs.processes
  files := hs.files

theorem Shadow.setProcess (hs : Shadow S ρ K L C w u) (hC : C' child = true)
    (hother : ∀ ch, ch ≠ child → C' ch = C ch) :
    Shadow S ρ K L C' { w with processes := w.processes.insert child q }
      { u with processes := u.processes.insert child q } where
  state := hs.state
  calls := hs.calls
  processes := by
    refine hs.processes.change (x := child) Function.injective_id ?_ ?_ ?_ ?_
    · exact fun ch hne => Finmap.lookup_insert_of_ne _ hne
    · exact fun ch hne => Finmap.lookup_insert_of_ne _ hne
    · exact fun ch hne => funext fun _ => hother ch hne
    · simp [Option.filter_some, hC]
  files := hs.files

theorem Shadow.setProcess_unseen (hs : Shadow S ρ K L C w u) (hC : C child = false) :
    Shadow S ρ K L C { w with processes := w.processes.insert child q } u where
  state := hs.state
  calls := hs.calls
  processes :=
    hs.processes.unseen (x := child) (fun _ hne => Finmap.lookup_insert_of_ne _ hne) (fun _ _ => hC) fun _ _ => hC
  files := hs.files

/-- A kill meets the same process in a shadow that has it. -/
theorem Shadow.dropPlugin (hs : Shadow S ρ K L C w u) (plugin : PluginProcess) :
    Shadow S ρ K L C (w.dropPlugin plugin) (u.dropPlugin plugin) where
  state := by simpa using hs.state
  calls := by simpa using hs.calls
  processes := by
    refine hs.processes.change (x := plugin.child) Function.injective_id ?_ ?_ (fun _ _ => rfl) ?_
    · exact fun ch hne => by rw [dropPlugin_processes, if_neg hne]
    · exact fun ch hne => by rw [dropPlugin_processes]; exact if_neg hne
    · have hp : u.processes.lookup plugin.child = (w.processes.lookup plugin.child).filter fun _ => C plugin.child :=
        hs.processes plugin.child
      simp only [dropPlugin_processes, id, if_true, hp]
      cases w.processes.lookup plugin.child with
      | none => rfl
      | some p => cases C plugin.child <;> rfl
  files := by simpa using hs.files

theorem Shadow.dropPlugin_unseen (hs : Shadow S ρ K L C w u) (hC : C plugin.child = false) :
    Shadow S ρ K L C (w.dropPlugin plugin) u where
  state := by simpa using hs.state
  calls := by simpa using hs.calls
  processes := by
    refine hs.processes.unseen (x := plugin.child) ?_ (fun _ _ => hC) fun _ _ => hC
    exact fun ch hne => by rw [dropPlugin_processes, if_neg hne]
  files := by simpa using hs.files

theorem Shadow.dropRecord (hs : Shadow S ρ K L C w u) (record : Option FixtureRecord) :
    Shadow S ρ K L C (w.dropRecord record) (u.dropRecord record) := by
  cases record with
  | none => exact hs
  | some r => exact hs.dropPlugin r.plugin

theorem Shadow.dropRecord_unseen (hs : Shadow S ρ K L C w u) {record : Option FixtureRecord}
    (hC : ∀ r, record = some r → C r.plugin.child = false) : Shadow S ρ K L C (w.dropRecord record) u := by
  cases record with
  | none => exact hs
  | some r => exact hs.dropPlugin_unseen (hC r rfl)

theorem Shadow.setState (hs : Shadow S ρ K L C w u) (hstate : StateShadow S ρ L' st su) :
    Shadow S ρ K L' C { w with state := st } { u with state := su } :=
  ⟨hstate, hs.calls, hs.processes, hs.files⟩

end RulesSystemtest
