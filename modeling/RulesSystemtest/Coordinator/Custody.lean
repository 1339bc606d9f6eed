import RulesSystemtest.Library.Ownership
import RulesSystemtest.Coordinator.Steps

/-! Who holds the handle of each plugin process: the future of the call that spawned
it, and after the insertion the record stored under its fingerprint. `Custody` says
what one step does to this ownership and which kills it sends. Handles are never
shared, and no process is killed while its handle is held. -/

namespace RulesSystemtest

open Library

def Phase.child? : Phase → Option Child
  | .connecting child _ _ => some child
  | .connected plugin | .described plugin | .created plugin _ => some plugin.child
  | _ => none

def Call.child? : Call → Option Child
  | .running _ p => p.child?
  | .finished => none

inductive Owner where
  | call (c : CallId)
  | record (fp : FixtureFingerprint)
  deriving DecidableEq

def World.owns (w : World) : Owner → Option Child
  | .call c => (w.calls.lookup c).bind Call.child?
  | .record fp => (w.state.fixtures.lookup fp).map (·.plugin.child)

variable {H : Host} {w w' : World} {e : Event} {o : Obs}

/-! ### Frame lemmas -/

@[simp] theorem setCall_state (c : CallId) (k : Call) : (w.setCall c k).state = w.state := rfl

@[simp] theorem setCall_calls (c : CallId) (k : Call) : (w.setCall c k).calls = w.calls.insert c k := rfl

@[simp] theorem setCall_processes (c : CallId) (k : Call) : (w.setCall c k).processes = w.processes := rfl

@[simp] theorem dropPlugin_state (plugin : PluginProcess) : (w.dropPlugin plugin).state = w.state := by
  unfold World.dropPlugin; split <;> rfl

@[simp] theorem dropPlugin_calls (plugin : PluginProcess) : (w.dropPlugin plugin).calls = w.calls := by
  unfold World.dropPlugin; split <;> rfl

@[simp] theorem dropPlugin_files (plugin : PluginProcess) : (w.dropPlugin plugin).files = w.files := by
  unfold World.dropPlugin; split <;> rfl

theorem dropPlugin_processes (plugin : PluginProcess) (ch : Child) : (w.dropPlugin plugin).processes.lookup ch =
    if ch = plugin.child then (w.processes.lookup ch).map fun p => { p with killed := true }
    else w.processes.lookup ch := by
  unfold World.dropPlugin
  by_cases he : ch = plugin.child
  · subst he
    cases hp : w.processes.lookup plugin.child <;> simp [hp]
  · cases hp : w.processes.lookup plugin.child <;> simp [he]

@[simp] theorem dropRecord_state (r : Option FixtureRecord) : (w.dropRecord r).state = w.state := by
  cases r <;> simp [World.dropRecord]

@[simp] theorem dropRecord_calls (r : Option FixtureRecord) : (w.dropRecord r).calls = w.calls := by
  cases r <;> simp [World.dropRecord]

theorem owns_congr (hs : w'.state.fixtures = w.state.fixtures) (hc : w'.calls = w.calls) :
    w'.owns = w.owns := by
  funext x
  cases x <;> simp [World.owns, hs, hc]

theorem owns_processes (ps : HashMap Child Process) : { w with processes := ps }.owns = w.owns :=
  owns_congr rfl rfl

theorem owns_dropPlugin (plugin : PluginProcess) : (w.dropPlugin plugin).owns = w.owns :=
  owns_congr (by simp) (by simp)

theorem owns_setCall (c : CallId) (k : Call) :
    (w.setCall c k).owns = Function.update w.owns (.call c) k.child? := by
  funext x
  by_cases hx : x = .call c
  · subst hx
    simp [World.owns]
  · rw [Function.update_of_ne hx]
    cases x with
    | call c' =>
      have : c' ≠ c := fun h => hx (by rw [h])
      simp [World.owns, Finmap.lookup_insert_of_ne _ this]
    | record fp => rfl

theorem owns_call {c : CallId} {a : Admitted} {p : Phase} (hc : w.calls.lookup c = some (.running a p)) :
    w.owns (.call c) = p.child? := by
  simp [World.owns, hc, Call.child?]

theorem owns_call_setCall {u : World} (hu : u.calls = w.calls) (c c' : CallId) (k : Call) :
    (u.setCall c' k).owns (.call c) = if c = c' then k.child? else w.owns (.call c) := by
  split
  · next h =>
    subst h
    simp [World.owns]
  · next h => simp [World.owns, hu, Finmap.lookup_insert_of_ne _ h]

theorem owns_record {fp : FixtureFingerprint} {r : FixtureRecord} (hr : w.state.fixtures.lookup fp = some r) :
    w.owns (.record fp) = some r.plugin.child := by
  simp [World.owns, hr]

/-- A call that keeps its child keeps the ownership. -/
theorem owns_setCall_same {c : CallId} {a : Admitted} {p q : Phase}
    (hc : w.calls.lookup c = some (.running a p)) (hq : q.child? = p.child?) :
    (w.setCall c (.running a q)).owns = w.owns := by
  rw [owns_setCall, Function.update_eq_self_iff, owns_call hc]
  exact hq

/-- Storing under a fingerprint a record that holds the child stored there before
keeps the ownership. -/
theorem owns_store {st : State} {fp : FixtureFingerprint} {r r' : FixtureRecord}
    (hr : w.state.fixtures.lookup fp = some r) (hst : st.fixtures = w.state.fixtures.insert fp r')
    (hp : r'.plugin = r.plugin) : { w with state := st }.owns = w.owns := by
  funext x
  cases x with
  | call c => rfl
  | record fp' =>
    by_cases hf : fp' = fp
    · subst hf
      simp [World.owns, hst, hr, hp]
    · simp [World.owns, hst, Finmap.lookup_insert_of_ne _ hf]

/-! ### The call a step moves -/

/-- A future moves only while its call runs, and its call then keeps running with
what it was admitted with, or is finished. -/
theorem Step.running {c : CallId} (h : Step H w e o w') (he : e.call? = some c) :
    ∃ a p, w.calls.lookup c = some (.running a p) ∧
      (w'.calls.lookup c = some .finished ∨ ∃ q, w'.calls.lookup c = some (.running a q)) := by
  cases h with
  | enter | reject | keepalive | release | status | exit | write => cases he
  | connectAgain hc =>
    obtain rfl := Option.some.inj he
    exact ⟨_, _, hc, .inr ⟨_, hc⟩⟩
  | _ hc =>
    obtain rfl := Option.some.inj he
    refine ⟨_, _, hc, ?_⟩
    simp

/-- A step leaves the other calls alone. -/
theorem Step.other_calls {c : CallId} (h : Step H w e o w') (he : e.call? ≠ some c)
    (ht : ∀ req, e ≠ .takeLease c req) : w'.calls.lookup c = w.calls.lookup c := by
  cases h with
  | keepalive | release | status | exit | write | connectAgain => rfl
  | enter | reject =>
    rw [setCall_calls, HashMap.lookup_insert, if_neg]
    rintro rfl
    exact ht _ rfl
  | _ =>
    simp only [setCall_calls, dropPlugin_calls, dropRecord_calls]
    rw [HashMap.lookup_insert, if_neg]
    rintro rfl
    exact he rfl

/-- A call that runs after a step was moved by it, entered with it, or stood there before. -/
theorem Step.running_cases {c : CallId} {a : Admitted} {q : Phase} (h : Step H w e o w')
    (hq : w'.calls.lookup c = some (.running a q)) :
    e.call? = some c ∨ e.call? ≠ some c ∧ w.calls.lookup c = some (.running a q) ∨
      q = .fingerprinted ∧ w.calls.lookup c = none ∧
        ∃ req, e = .takeLease c req ∧ takeLeaseValidate H w.files req = .ok a := by
  by_cases he : e.call? = some c
  · exact .inl he
  · refine .inr ?_
    by_cases ht : ∃ req, e = .takeLease c req
    · obtain ⟨req, rfl⟩ := ht
      cases h with
      | enter hc hv =>
        simp only [setCall_calls, HashMap.lookup_insert, if_true, Option.some.injEq, Call.running.injEq] at hq
        obtain ⟨rfl, rfl⟩ := hq
        exact .inr ⟨rfl, hc, req, rfl, hv⟩
      | reject hc hv => simp at hq
    · rw [h.other_calls he (not_exists.1 ht)] at hq
      exact .inl ⟨he, hq⟩

/-- A finished call never moves again. -/
theorem Step.finished {c : CallId} (h : Step H w e o w') (hc : w.calls.lookup c = some .finished) :
    e.call? ≠ some c ∧ w'.calls.lookup c = some .finished := by
  have he : e.call? ≠ some c := by
    intro he
    obtain ⟨a, p, hr, -⟩ := h.running he
    rw [hc] at hr
    cases hr
  refine ⟨he, (h.other_calls he ?_).trans hc⟩
  rintro req rfl
  cases h <;> simp_all

/-- A call comes to hold a child only by starting it. -/
theorem holds_started (hst : Step H w e o w') {c : CallId} {child : Child}
    (hown : w'.owns (.call c) = some child) : w.owns (.call c) = some child ∨ o = .started c child := by
  cases hst with
  | connectAgain | keepalive | release | status | exit | write => exact .inl hown
  | spawn hc =>
    rw [owns_call_setCall (w := w) (by rfl)] at hown
    split at hown
    · next heq =>
      obtain rfl := Option.some.inj hown
      exact .inr (by rw [heq])
    · exact .inl hown
  | connect hc | describe hc | create hc =>
    rw [owns_call_setCall (w := w) (by rfl)] at hown
    split at hown
    · next heq => exact .inl (heq ▸ (owns_call hc).trans hown)
    · exact .inl hown
  | _ =>
    rw [owns_call_setCall (w := w) (by simp)] at hown
    split at hown
    · cases hown
    · exact .inl hown

/-! ### Processes -/

/-- Processes only appear, exit and get killed; `K` are the ones killed now. -/
structure Evolves (w w' : World) (K : Child → Prop) : Prop where
  keep : ∀ ch p, w.processes.lookup ch = some p → ∃ p', w'.processes.lookup ch = some p' ∧
    p'.image = p.image ∧ (p'.killed = true ↔ p.killed = true ∨ K ch) ∧
    (p.exited.isSome → p'.exited = p.exited)
  new : ∀ ch p', w.processes.lookup ch = none → w'.processes.lookup ch = some p' →
    p'.killed = false ∧ p'.exited = none

theorem evolves_of_eq (h : w'.processes = w.processes) : Evolves w w' fun _ => False where
  keep ch p hp := ⟨p, by rw [h, hp], rfl, by simp, fun _ => rfl⟩
  new ch p' hn hp := by simp [h, hn] at hp

theorem evolves_spawn {child : Child} {image : Bytes} (hn : w.processes.lookup child = none)
    (h : w'.processes = w.processes.insert child ⟨image, none, false⟩) : Evolves w w' fun _ => False where
  keep ch p hp := by
    have hne : ch ≠ child := by
      rintro rfl
      rw [hn] at hp
      cases hp
    exact ⟨p, by rw [h, Finmap.lookup_insert_of_ne _ hne, hp], rfl, by simp, fun _ => rfl⟩
  new ch p' hc hp := by
    by_cases he : ch = child
    · subst he
      rw [h, Finmap.lookup_insert, Option.some.injEq] at hp
      subst hp
      exact ⟨rfl, rfl⟩
    · rw [h, Finmap.lookup_insert_of_ne _ he, hc] at hp
      cases hp

theorem evolves_exit {child : Child} {image : Bytes} {killed : Bool} {status : String}
    (hc : w.processes.lookup child = some ⟨image, none, killed⟩)
    (h : w'.processes = w.processes.insert child ⟨image, some status, killed⟩) :
    Evolves w w' fun _ => False where
  keep ch p hp := by
    by_cases he : ch = child
    · subst he
      rw [hc, Option.some.injEq] at hp
      subst hp
      exact ⟨⟨image, some status, killed⟩, by rw [h, Finmap.lookup_insert], rfl, by simp, by simp⟩
    · exact ⟨p, by rw [h, Finmap.lookup_insert_of_ne _ he, hp], rfl, by simp, fun _ => rfl⟩
  new ch p' hn hp := by
    have he : ch ≠ child := by
      rintro rfl
      rw [hc] at hn
      cases hn
    rw [h, Finmap.lookup_insert_of_ne _ he, hn] at hp
    cases hp

theorem evolves_dropPlugin {u : World} (plugin : PluginProcess) (hu : u.processes = w.processes)
    (h : w'.processes = (u.dropPlugin plugin).processes) : Evolves w w' fun ch => ch = plugin.child where
  keep ch p hp := by
    rw [h, dropPlugin_processes, hu, hp]
    split
    · next he => exact ⟨{ p with killed := true }, rfl, rfl, by simp [he], fun _ => rfl⟩
    · next he => exact ⟨p, rfl, rfl, by simp [he], fun _ => rfl⟩
  new ch p' hn hp := by
    rw [h, dropPlugin_processes, hu, hn, Option.map_none, ite_self] at hp
    cases hp

theorem evolves_dropRecord {u : World} (r : Option FixtureRecord) (hu : u.processes = w.processes)
    (h : w'.processes = (u.dropRecord r).processes) :
    Evolves w w' fun ch => r.map (·.plugin.child) = some ch := by
  cases r with
  | none => simpa [World.dropRecord] using evolves_of_eq (h.trans hu)
  | some record => simpa [World.dropRecord, eq_comm] using evolves_dropPlugin record.plugin hu h

/-! ### What a step does to ownership -/

inductive Custody (w w' : World) : Prop where
  | same (ho : w'.owns = w.owns) (hp : Evolves w w' fun _ => False)
  | acquire (c : CallId) (child : Child) (hn : w.processes.lookup child = none)
      (ho : w'.owns = Function.update w.owns (.call c) (some child))
      (hk : ∃ p, w'.processes.lookup child = some p) (hp : Evolves w w' fun _ => False)
  | drop (c : CallId) (child : Child) (K : Child → Prop) (hc : w.owns (.call c) = some child)
      (ho : w'.owns = Function.update w.owns (.call c) none) (hK : ∀ x, K x → x = child)
      (hp : Evolves w w' K)
  | handOver (c : CallId) (fp : FixtureFingerprint) (child : Child) (hc : w.owns (.call c) = some child)
      (ho : w'.owns = Function.update (Function.update w.owns (.call c) none) (.record fp) (some child))
      (hp : Evolves w w' fun x => w.owns (.record fp) = some x)

theorem Custody.evolves (h : Custody w w') : ∃ K, Evolves w w' K := by
  cases h with
  | same ho hp => exact ⟨_, hp⟩
  | acquire c child hn ho hk hp => exact ⟨_, hp⟩
  | drop c child K hc ho hK hp => exact ⟨K, hp⟩
  | handOver c fp child hc ho hp => exact ⟨_, hp⟩

/-- A call without a child can change phase without one. -/
theorem custody_idle {c : CallId} {k : Call} (hn : w.owns (.call c) = none) (hk : k.child? = none) :
    Custody w (w.setCall c k) :=
  .same (by rw [owns_setCall, Function.update_eq_self_iff, hn, hk]) (evolves_of_eq rfl)

theorem step_custody (h : Step H w e o w') : Custody w w' := by
  cases h with
  | enter hc | reject hc => exact custody_idle (by simp [World.owns, hc]) rfl
  | miss hc | spawnFail hc => exact custody_idle (owns_call hc) rfl
  | connect hc | describe hc | create hc => exact .same (owns_setCall_same hc rfl) (evolves_of_eq rfl)
  | connectAgain | keepalive | status => exact .same rfl (evolves_of_eq rfl)
  | @attach c a record id hc hf =>
    refine .same ?_ (evolves_of_eq rfl)
    have hstore : { w with state := (takeLeaseAttach w.state a record id).2 }.owns = w.owns :=
      owns_store (findReusable_eq_some.1 hf).1 rfl rfl
    rw [owns_setCall, hstore, Function.update_eq_self_iff]
    exact (owns_call hc).symm
  | spawnPanic hc hp hf hd =>
    refine .same ?_ (evolves_spawn hp rfl)
    rw [owns_setCall, owns_processes, Function.update_eq_self_iff]
    exact (owns_call hc).symm
  | @spawn c a uuid child now deadline image hc hp hf hd =>
    refine .acquire c child hp ?_ ⟨_, Finmap.lookup_insert ..⟩ (evolves_spawn hp rfl)
    rw [owns_setCall, owns_processes]
    rfl
  | connectFail hc | cancelBare hc =>
    exact .drop _ _ (fun _ => False) (owns_call hc) (owns_setCall ..) (fun _ hf => hf.elim) (evolves_of_eq rfl)
  | @describeFail c a plugin err hc | @createFail c a plugin fixtureId reply err hc hr =>
    refine .drop c plugin.child _ (owns_call hc) ?_ (fun _ => id) (evolves_dropPlugin plugin rfl rfl)
    rw [owns_setCall, owns_dropPlugin]
    rfl
  | @cancelGuarded c a p plugin hc hp =>
    refine .drop c plugin.child _ ?_ ?_ (fun _ => id) (evolves_dropPlugin plugin rfl rfl)
    · rcases hp with rfl | rfl <;> exact owns_call hc
    · rw [owns_setCall, owns_dropPlugin]
      rfl
  | @insert c a plugin result id hc =>
    refine .handOver c a.fp plugin.child (owns_call hc) ?_
      (evolves_dropRecord (u := { w with state := (takeLeaseInsert w.state a plugin result id).2 }) _ rfl rfl)
    rw [owns_setCall]
    funext x
    by_cases hx : x = .call c
    · subst hx
      simp [Call.child?]
    · rw [Function.update_of_ne hx]
      cases x with
      | call c' => simp [World.owns, Function.update_of_ne hx]
      | record fp =>
        by_cases hfp : fp = a.fp
        · subst hfp
          simp [World.owns, takeLeaseInsert, newRecord]
        · have : Owner.record fp ≠ .record a.fp := fun h => hfp (by simpa using h)
          simp [World.owns, takeLeaseInsert, Function.update_of_ne this, Finmap.lookup_insert_of_ne _ hfp]
  | @release leaseId =>
    refine .same ?_ (evolves_of_eq rfl)
    funext x
    cases x with
    | call c => rfl
    | record fp =>
      simp only [World.owns, release_fixtures]
      split
      · simp [Function.comp_def]
      · rfl
  | exit hp => exact .same (owns_congr rfl rfl) (evolves_exit hp rfl)
  | write => exact .same (owns_congr rfl rfl) (evolves_of_eq rfl)

/-- Who holds a process that was known before the step held it then, or was handed
it by the future of a call. -/
theorem Custody.owner_was (hc : Custody w w') {child : Child} {p : Process} {x : Owner}
    (hk : w.processes.lookup child = some p) (hx : w'.owns x = some child) :
    w.owns x = some child ∨ ∃ c, w.owns (.call c) = some child := by
  cases hc with
  | same ho hp => exact .inl (ho ▸ hx)
  | acquire c child' hn ho hk' hp =>
    rw [ho] at hx
    by_cases hxc : x = .call c
    · subst hxc
      rw [Function.update_self, Option.some.injEq] at hx
      rw [← hx, hn] at hk
      cases hk
    · rw [Function.update_of_ne hxc] at hx
      exact .inl hx
  | drop c child' K hc ho hK hp =>
    rw [ho] at hx
    by_cases hxc : x = .call c
    · subst hxc
      simp at hx
    · rw [Function.update_of_ne hxc] at hx
      exact .inl hx
  | handOver c fp child' hc ho hp =>
    rw [ho] at hx
    by_cases hxf : x = .record fp
    · subst hxf
      rw [Function.update_self, Option.some.injEq] at hx
      exact .inr ⟨c, hx ▸ hc⟩
    · rw [Function.update_of_ne hxf] at hx
      by_cases hxc : x = .call c
      · subst hxc
        simp at hx
      · rw [Function.update_of_ne hxc] at hx
        exact .inl hx

/-! ### Handles are exclusive and guard live processes -/

/-- No two owners hold one child, and the children held were spawned and not killed. -/
structure Guarded (w : World) : Prop where
  exclusive : Exclusive w.owns
  alive : ∀ x ch, w.owns x = some ch → ∃ p, w.processes.lookup ch = some p ∧ p.killed = false

theorem guarded_start (files : FileSystem) : Guarded (World.start files) where
  exclusive := by rintro (c | fp) y k hx <;> simp [World.start, World.owns] at hx
  alive := by rintro (c | fp) ch hx <;> simp [World.start, World.owns] at hx

/-- A child that is held and not killed now stays alive. -/
theorem Guarded.survive {K : Child → Prop} (hg : Guarded w) (hp : Evolves w w' K) {x : Owner} {ch : Child}
    (hx : w.owns x = some ch) (hK : ¬ K ch) : ∃ p, w'.processes.lookup ch = some p ∧ p.killed = false := by
  obtain ⟨p, hl, hk⟩ := hg.alive x ch hx
  obtain ⟨p', hl', -, hk', -⟩ := hp.keep ch p hl
  refine ⟨p', hl', ?_⟩
  rw [Bool.eq_false_iff, ne_eq, hk', not_or]
  exact ⟨by simp [hk], hK⟩

theorem guarded_step (hg : Guarded w) (hc : Custody w w') : Guarded w' := by
  cases hc with
  | same ho hp => exact ⟨ho ▸ hg.exclusive, fun x ch hx => hg.survive hp (by rwa [ho] at hx) id⟩
  | acquire c child hn ho hk hp =>
    have hfree : ∀ x, w.owns x ≠ some child := by
      intro x hx
      obtain ⟨p, hl, -⟩ := hg.alive x child hx
      rw [hn] at hl
      cases hl
    refine ⟨ho ▸ hg.exclusive.acquire hfree _, fun x ch hx => ?_⟩
    rw [ho] at hx
    by_cases hxc : x = .call c
    · subst hxc
      rw [Function.update_self, Option.some.injEq] at hx
      subst hx
      obtain ⟨p, hl⟩ := hk
      exact ⟨p, hl, (hp.new _ p hn hl).1⟩
    · rw [Function.update_of_ne hxc] at hx
      exact hg.survive hp hx id
  | drop c child K hc ho hK hp =>
    refine ⟨ho ▸ hg.exclusive.drop _, fun x ch hx => ?_⟩
    rw [ho] at hx
    by_cases hxc : x = .call c
    · subst hxc
      simp at hx
    · rw [Function.update_of_ne hxc] at hx
      refine hg.survive hp hx fun hk => hxc ?_
      rw [hK ch hk] at hx
      exact hg.exclusive _ _ _ hx hc
  | handOver c fp child hc ho hp =>
    refine ⟨ho ▸ hg.exclusive.handOver hc _, fun x ch hx => ?_⟩
    rw [ho] at hx
    by_cases hxf : x = .record fp
    · subst hxf
      rw [Function.update_self, Option.some.injEq] at hx
      subst hx
      -- the record replaced holds another child than the call
      exact hg.survive hp hc fun hk => absurd (hg.exclusive _ _ _ hk hc) (by simp)
    · rw [Function.update_of_ne hxf] at hx
      by_cases hxc : x = .call c
      · subst hxc
        simp at hx
      · rw [Function.update_of_ne hxc] at hx
        exact hg.survive hp hx fun hk => hxf (hg.exclusive _ _ _ hx hk)

theorem Runs.guarded {h : History} (hr : Runs H h w) : Guarded w := by
  refine Machine.Run.invariant hereditary_true (I := fun _ w => Guarded w) ?_ ?_ hr trivial
  · rintro _ ⟨files, rfl⟩
    exact guarded_start files
  · intro h w e o w' _ _ hg hst
    exact guarded_step hg (step_custody (step_cases hst))

end RulesSystemtest
