import RulesSystemtest.Launch.Processes

/-! At most one coordinator serves a socket directory. The process past `lock_instance`
is the one that holds the lock, and the socket file is its own or that of a process that
is gone, so the file that is removed before binding never belongs to a live process. -/

namespace RulesSystemtest.Launch

open Library

variable {W : Workspace} {s s' : State} {e : Label} {h : List (Transition State Label Unit)}

/-! ### The lock and the socket file -/

/-- The phases of a process that has bound the socket. -/
def Phase.Owner : Phase → Prop
  | .bound | .serving | .gone => True
  | _ => False

structure Exclusive (s : State) : Prop where
  holder : ∀ p, (s.phase p).PastLock → s.lock = some p
  owner : ∀ p, s.socket = some p → (s.phase p).Owner

theorem exclusive_init (hs : Initial s) : Exclusive s := by
  constructor
  · intro p hp
    rcases hs.phase p with hphase | hphase
    · rw [hphase] at hp
      exact hp.elim
    · rw [hphase] at hp
      exact hp.elim
  · intro p hp
    rw [hs.owner p hp]
    trivial

/-- A process that moves within the same side of the lock, or leaves it, disturbs
nothing, if it does not own the socket file or goes on owning it. -/
theorem Exclusive.setPhase (hI : Exclusive s) {p : Pid} {x : Phase} (hlock : x.PastLock → (s.phase p).PastLock)
    (howner : (s.phase p).Owner → x.Owner) : Exclusive (s.setPhase p x) := by
  constructor
  · intro q hq
    rw [setPhase_phase] at hq
    split at hq
    · next hqp =>
      subst hqp
      exact hI.holder q (hlock hq)
    · exact hI.holder q hq
  · intro q hq
    rw [setPhase_phase]
    split
    · next hqp =>
      subst hqp
      exact howner (hI.owner q hq)
    · exact hI.owner q hq

theorem Exclusive.setCall (hI : Exclusive s) (r : ℕ) (x : Call) : Exclusive (s.setCall r x) := ⟨hI.holder, hI.owner⟩

/-- A process that holds the lock takes it to itself. -/
theorem Exclusive.past (hI : Exclusive s) {p q : Pid} (hp : (s.phase p).PastLock) (hq : (s.phase q).PastLock) : p = q :=
  Option.some.inj ((hI.holder p hp).symm.trans (hI.holder q hq))

theorem Exclusive.move (hI : Exclusive s) (hm : Move W s e s') : Exclusive s' := by
  cases hm with
  | exec hp => exact hI.setPhase False.elim (by rw [hp]; exact id)
  | openLock hp => exact hI.setPhase False.elim (by rw [hp]; exact id)
  | loses hp hlock => exact hI.setPhase False.elim fun _ => trivial
  | keeps hp => exact hI.setPhase (by rw [hp]; exact id) (by rw [hp]; exact id)
  | listen hp => exact hI.setPhase (by rw [hp]; exact id) fun _ => trivial
  | @wins p hp hlock =>
    constructor
    · intro q hq
      by_cases hqp : q = p
      · rw [hqp]
      · have hq' : (s.phase q).PastLock := by simpa [hqp] using hq
        cases hlock.symm.trans (hI.holder q hq')
    · intro q hq
      have howner := hI.owner q hq
      by_cases hqp : q = p
      · rw [hqp, hp] at howner
        exact howner.elim
      · simpa [hqp] using howner
  | @removes p hp =>
    constructor
    · intro q hq
      by_cases hqp : q = p
      · rw [hqp]
        exact hI.holder p (by rw [hp]; trivial)
      · exact hI.holder q (by simpa [hqp] using hq)
    · exact fun q hq => nomatch hq
  | @bind p hp hsocket =>
    constructor
    · intro q hq
      by_cases hqp : q = p
      · rw [hqp]
        exact hI.holder p (by rw [hp]; trivial)
      · exact hI.holder q (by simpa [hqp] using hq)
    · intro q hq
      obtain rfl := Option.some.inj hq
      simp [Phase.Owner]
  | @exits p hp =>
    constructor
    · intro q hq
      have hqp : q ≠ p := by
        rintro rfl
        simp [Phase.PastLock] at hq
      have hlock := hI.holder q (by simpa [hqp] using hq)
      simp [hlock, hqp]
    · intro q hq
      have howner := hI.owner q hq
      by_cases hqp : q = p
      · simp [hqp, Phase.Owner]
      · simpa [hqp] using howner
  | ensure hr => exact hI.setCall _ _
  | spawn hr hp => exact (hI.setPhase False.elim (by rw [hp]; exact id)).setCall _ _
  | accepted hr haccepts => exact hI.setCall _ _
  | refused hr => exact hI.setCall _ _
  | fails he => exact hI.setCall _ _
  | killed => exact hI.setCall _ _

theorem move_of_machine {o : Unit} (h : (machine W).step s e = some (o, s')) : Move W s e s' := by
  obtain ⟨s'', hst, heq⟩ := Option.map_eq_some_iff.1 h
  cases heq
  exact move_of_step hst

theorem exclusive_of_run (hr : (machine W).Run h s) : Exclusive s := by
  refine hr.invariant hereditary_true (I := fun _ s => Exclusive s) ?_ ?_ trivial
  · exact fun s hs => exclusive_init hs
  · intro h s e o s' hr ha hI hst
    exact hI.move (move_of_machine hst)

/-- The process whose socket file is removed is not alive. -/
theorem Exclusive.removed (hI : Exclusive s) {p q : Pid} (hp : s.phase p = .locked) (hq : s.socket = some q) :
    ¬ (s.phase q).Live := by
  intro hlive
  have howner := hI.owner q hq
  have hpast : (s.phase q).PastLock := by
    cases hphase : s.phase q <;> rw [hphase] at hlive howner <;> trivial
  have hpq : p = q := hI.past (by rw [hp]; trivial) hpast
  rw [← hpq, hp] at howner
  exact howner

/-! ### Processes only go forward -/

def Phase.rank : Phase → ℕ
  | .absent => 0
  | .started => 1
  | .opened => 2
  | .locked => 3
  | .unlinked => 4
  | .bound => 5
  | .serving => 6
  | .gone => 7

theorem Phase.rank_le (x : Phase) : x.rank ≤ Phase.gone.rank := by
  cases x <;> decide

theorem Phase.eq_gone {x : Phase} (hx : Phase.gone.rank ≤ x.rank) : x = .gone := by
  cases x <;> first | rfl | exact absurd hx (by decide)

theorem rank_setPhase {p : Pid} {x : Phase} (hx : (s.phase p).rank ≤ x.rank) (q : Pid) :
    (s.phase q).rank ≤ ((s.setPhase p x).phase q).rank := by
  rw [setPhase_phase]
  split
  · next hqp =>
    rw [hqp]
    exact hx
  · exact Nat.le_refl _

theorem Move.rank_le (hm : Move W s e s') (q : Pid) : (s.phase q).rank ≤ (s'.phase q).rank := by
  cases hm with
  | exec hp => exact rank_setPhase (by rw [hp]; decide) q
  | openLock hp => exact rank_setPhase (by rw [hp]; decide) q
  | wins hp => exact rank_setPhase (by rw [hp]; decide) q
  | loses hp => exact rank_setPhase (by rw [hp]; decide) q
  | removes hp => exact rank_setPhase (by rw [hp]; decide) q
  | keeps hp => exact rank_setPhase (by rw [hp]; decide) q
  | bind hp => exact rank_setPhase (by rw [hp]; decide) q
  | listen hp => exact rank_setPhase (by rw [hp]; decide) q
  | spawn hr hp => exact rank_setPhase (by rw [hp]; decide) q
  | exits hp => exact rank_setPhase (Phase.rank_le _) q
  | ensure | accepted | refused | fails | killed => exact Nat.le_refl _

/-- The steps of a process on the socket file. -/
def Label.Touches (p : Pid) : Label → Prop
  | .removeSocket p' _ | .bind p' | .listen p' => p' = p
  | _ => False

theorem Move.touches (hm : Move W s e s') {p : Pid} (he : e.Touches p) :
    (s.phase p).rank < Phase.gone.rank ∧ Phase.locked.rank < (s'.phase p).rank := by
  cases hm with
  | removes hp | keeps hp | bind hp | listen hp =>
    subst he
    simp [hp, Phase.rank]
  | exec | openLock | wins | loses | exits | ensure | spawn | accepted | refused | killed => exact he.elim
  | @fails e _ _ hf => cases e <;> first | exact he.elim | exact hf.elim

theorem touched_of_run (hr : (machine W).Run h s) {p : Pid} :
    ∀ t ∈ h, t.event.Touches p → Phase.locked.rank < (s.phase p).rank := by
  refine hr.invariant hereditary_true
    (I := fun h s => ∀ t ∈ h, t.event.Touches p → Phase.locked.rank < (s.phase p).rank) ?_ ?_ trivial
  · exact fun s hs t ht => nomatch ht
  · intro h s e o s' hr ha hI hst t ht htouches
    have hm := move_of_machine hst
    rcases List.mem_cons.1 ht with rfl | ht
    · exact (hm.touches htouches).2
    · exact (hI t ht htouches).trans_le (hm.rank_le p)

/-- The process is gone, and nothing it did was done to the socket file. -/
def Quit (p : Pid) (h : List (Transition State Label Unit)) (s : State) : Prop :=
  s.phase p = .gone ∧ ∀ t ∈ h, ¬ t.event.Touches p

theorem Quit.step {p : Pid} (hq : Quit p h s) {o : Unit} (hm : Move W s e s') : Quit p (⟨s, e, o, s'⟩ :: h) s' := by
  constructor
  · apply Phase.eq_gone
    rw [← hq.1]
    exact hm.rank_le p
  · intro t ht htouches
    rcases List.mem_cons.1 ht with rfl | ht
    · have hlt := (hm.touches htouches).1
      rw [hq.1] at hlt
      exact Nat.lt_irrefl _ hlt
    · exact hq.2 t ht htouches

/-- A process that finds the lock taken. -/
def Loses (p : Pid) (t : Transition State Label Unit) : Prop := t.event = .tryLock p ∧ t.pre.lock ≠ none

theorem quit_of_run (hr : (machine W).Run h s) {p : Pid} : ∀ t ∈ h, Loses p t → Quit p h s := by
  refine hr.invariant hereditary_true (I := fun h s => ∀ t ∈ h, Loses p t → Quit p h s) ?_ ?_ trivial
  · exact fun s hs t ht => nomatch ht
  · intro h s e o s' hr ha hI hst t ht hlost
    have hm := move_of_machine hst
    rcases List.mem_cons.1 ht with rfl | ht
    · obtain ⟨rfl, hlock⟩ := hlost
      cases hm with
      | wins hp hfree => exact absurd hfree hlock
      | fails he => exact he.elim
      | loses hp _ =>
        constructor
        · simp
        · intro t ht htouches
          rcases List.mem_cons.1 ht with rfl | ht
          · exact htouches
          · have hlt := touched_of_run hr t ht htouches
            rw [hp] at hlt
            exact absurd hlt (by decide)
    · exact (hI t ht hlost).step hm

/-! ### Calls of the runners -/

def Begun (r : ℕ) (h : List (Transition State Label Unit)) : Prop := ∃ t ∈ h, t.event = .ensure r

/-- After the call began, one of its dials connected to the process that listens at the
socket path. -/
def AcceptedDuring (r : ℕ) (h : List (Transition State Label Unit)) : Prop :=
  ∃ newer t older, h = newer ++ t :: older ∧ t.event = .dial r (.ok ()) ∧ Accepts t.pre ∧ Begun r older

/-- What the history says of an open call, and of one that returned a path. -/
def Backed (W : Workspace) (h : List (Transition State Label Unit)) (r : ℕ) : Call → Prop
  | .probing | .spawning | .waiting _ => Begun r h
  | .returned (.ok path) => path = sockPath W ∧ AcceptedDuring r h
  | _ => True

theorem Begun.cons {r : ℕ} (hb : Begun r h) (t : Transition State Label Unit) : Begun r (t :: h) := by
  obtain ⟨u, hu, he⟩ := hb
  exact ⟨u, List.mem_cons_of_mem t hu, he⟩

theorem Backed.cons {r : ℕ} {x : Call} (hb : Backed W h r x) (t : Transition State Label Unit) :
    Backed W (t :: h) r x := by
  cases x with
  | probing | spawning | waiting e => exact Begun.cons hb t
  | idle | killed => trivial
  | returned result =>
    cases result with
    | error err => trivial
    | ok path =>
      obtain ⟨hpath, newer, u, older, rfl, hu⟩ := hb
      exact ⟨hpath, t :: newer, u, older, rfl, hu⟩

theorem backed_setCall (hI : ∀ r, Backed W h r (s.call r)) {r : ℕ} {x : Call} {t : Transition State Label Unit}
    (hx : Backed W (t :: h) r x) (r' : ℕ) : Backed W (t :: h) r' ((s.setCall r x).call r') := by
  rw [setCall_call]
  split
  · next hr =>
    rw [hr]
    exact hx
  · exact (hI r').cons t

theorem backed_step (hI : ∀ r, Backed W h r (s.call r)) {o : Unit} (hm : Move W s e s') (r : ℕ) :
    Backed W (⟨s, e, o, s'⟩ :: h) r (s'.call r) := by
  have hbegun : ∀ {r' x}, s.call r' = x → (x = .probing ∨ x = .spawning ∨ ∃ e, x = .waiting e) → Begun r' h := by
    rintro r' x rfl hx
    have hb := hI r'
    obtain hx | hx | ⟨err, hx⟩ := hx
    · rwa [hx] at hb
    · rwa [hx] at hb
    · rwa [hx] at hb
  cases hm with
  | exec | openLock | wins | loses | removes | keeps | bind | listen | exits => exact (hI r).cons _
  | killed =>
    apply backed_setCall hI
    trivial
  | fails he =>
    apply backed_setCall hI
    trivial
  | ensure hr =>
    apply backed_setCall hI
    exact ⟨_, List.mem_cons_self, rfl⟩
  | spawn hr hp =>
    apply backed_setCall (s := s.setPhase _ _) hI
    exact (hbegun hr (.inr (.inl rfl))).cons _
  | @refused r' err x hr =>
    apply backed_setCall hI
    rcases hr with ⟨hr, rfl⟩ | ⟨⟨last, hr⟩, rfl⟩
    · exact (hbegun hr (.inl rfl)).cons _
    · exact (hbegun hr (.inr (.inr ⟨last, rfl⟩))).cons _
  | @accepted r' u hr haccepts =>
    apply backed_setCall hI
    have hb : Begun r' h := by
      rcases hr with hr | ⟨last, hr⟩
      · exact hbegun hr (.inl rfl)
      · exact hbegun hr (.inr (.inr ⟨last, rfl⟩))
    exact ⟨rfl, [], _, h, rfl, rfl, haccepts, hb⟩

theorem backed_of_run (hr : (machine W).Run h s) : ∀ r, Backed W h r (s.call r) := by
  refine hr.invariant hereditary_true (I := fun h s => ∀ r, Backed W h r (s.call r)) ?_ ?_ trivial
  · intro s hs r
    rw [hs.call r]
    trivial
  · intro h s e o s' hr ha hI hst
    exact backed_step hI (move_of_machine hst)

/-! ### The service of a socket directory -/

/-- The file that a process removes is not that of a live one. -/
def RemovesStale (t : Transition State Label Unit) : Prop :=
  ∀ p q, t.event = .removeSocket p true → t.pre.socket = some q → ¬ (t.pre.phase q).Live

theorem Move.locked {p : Pid} {removed : Bool} (hm : Move W s (.removeSocket p removed) s') : s.phase p = .locked := by
  cases hm with
  | removes hp | keeps hp => exact hp
  | fails he => exact he.elim

theorem removesStale_of_run (hr : (machine W).Run h s) {t : Transition State Label Unit} (ht : t ∈ h) :
    RemovesStale t := by
  obtain ⟨newer, older, rfl⟩ := List.append_of_mem ht
  intro p q he hq
  obtain ⟨hbefore, hst⟩ := hr.before
  have hm := move_of_machine hst
  rw [he] at hm
  exact (exclusive_of_run hbefore).removed hm.locked hq

/-- In every interleaving at most one live process is past `lock_instance`, no socket
file of a live process is removed, a process that loses the lock is gone and never
touched the socket file, and a call that returned a path had it accept a connection. -/
theorem one_coordinator (W : Workspace) {h : List (Transition State Label Unit)} {s : State}
    (hr : (machine W).Run h s) :
    (∀ p q, (s.phase p).PastLock → (s.phase q).PastLock → p = q) ∧
    (∀ t ∈ h, RemovesStale t) ∧
    (∀ p, ∀ t ∈ h, Loses p t → t.post.phase p = .gone ∧ Quit p h s) ∧
    ∀ r path, s.call r = .returned (.ok path) → path = sockPath W ∧ AcceptedDuring r h := by
  refine ⟨?_, ?_, ?_, ?_⟩
  · intro p q hp hq
    exact (exclusive_of_run hr).past hp hq
  · intro t ht
    exact removesStale_of_run hr ht
  · intro p t ht hlost
    refine ⟨?_, quit_of_run hr t ht hlost⟩
    obtain ⟨newer, older, rfl⟩ := List.append_of_mem ht
    obtain ⟨hbefore, hst⟩ := hr.before
    have hquit := quit_of_run (hbefore.step hst) t List.mem_cons_self hlost
    exact hquit.1
  · intro r path hreturned
    have hb := backed_of_run hr r
    rwa [hreturned] at hb

def sampleWorkspace : Workspace where
  tempDir := "/tmp"
  wsKey := utf8 "/out/runner"
  sha256 _ := [123, 238, 210, 178, 31, 18, 168, 58, 74, 159, 45, 239, 5, 125, 35, 109, 36, 28, 238, 205, 114, 183, 152,
    174, 250, 139, 254, 206, 5, 194, 65, 50]
  coordinatorBin := "/runfiles/_main/coordinator_local"

/-- Two runners find no coordinator and start one each. The first is killed once it
serves, and a third process takes its place. -/
def sampleLabels : List Label :=
  [.ensure 0, .ensure 1, .dial 0 (.error "connect: no such file or directory"),
    .dial 1 (.error "connect: no such file or directory"), .spawn 0 0, .spawn 1 1, .openLock 1, .openLock 0, .tryLock 1,
    .tryLock 0, .removeSocket 1 false, .bind 1, .listen 1, .dial 0 (.ok ()), .exits 1, .exec 2, .openLock 2, .tryLock 2,
    .removeSocket 2 true, .bind 2, .listen 2, .dial 1 (.ok ())]

theorem initial_start : Initial .start where
  unlocked := rfl
  phase _ := .inl rfl
  owner _ hp := nomatch hp
  call _ := rfl

def sampleRun : List (Transition State Label Unit) × State :=
  (machine sampleWorkspace).replay ([], .start) sampleLabels

theorem run_sample : (machine sampleWorkspace).Run sampleRun.1 sampleRun.2 :=
  Machine.Run.replay (.init initial_start) sampleLabels

theorem one_coordinator_sample :
    sampleRun.1.length = sampleLabels.length ∧ (∀ t ∈ sampleRun.1, RemovesStale t) ∧ Quit 0 sampleRun.1 sampleRun.2 ∧
    AcceptedDuring 1 sampleRun.1 := by
  have hone := one_coordinator sampleWorkspace run_sample
  refine ⟨by decide, hone.2.1, ?_, ?_⟩
  · have hlost : Loses 0 (sampleRun.1.get ⟨12, by decide⟩) := ⟨rfl, by decide⟩
    exact (hone.2.2.1 0 _ (List.get_mem _ _) hlost).2
  · exact (hone.2.2.2 1 (sockPath sampleWorkspace) rfl).2

end RulesSystemtest.Launch
