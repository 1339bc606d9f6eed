import RulesSystemtest.Library.Machine
import RulesSystemtest.Runner.Config
import Mathlib.Logic.Function.Basic

/-! The processes that share a socket directory: any number of `coordinator_local`
processes and of runners that ensure one is running. A step of the machine is one step
of one process. The exclusive lock belongs to the process that locked the file until
that process leaves `main` or dies, nothing removes the lock file, and only coordinators
bind the socket path. -/

namespace RulesSystemtest.Launch

open Library

abbrev Pid := ℕ

/-- What the runners of a workspace agree on. -/
structure Workspace where
  tempDir : String
  wsKey : Bytes
  sha256 : Bytes → Bytes
  coordinatorBin : String

def socketDir (W : Workspace) : String :=
  W.tempDir ++ "/systemtest/" ++ String.ofList ((hexEncode (W.sha256 W.wsKey)).toList.take 16)

def sockPath (W : Workspace) : String := socketDir W ++ "/server.sock"

/-! ### States -/

/-- How far a coordinator process has come in `main`. It is `serving` from the moment in
which it listens, and `gone` when it has left `main` or was killed. -/
inductive Phase where
  | absent
  | started
  | opened
  | locked
  | unlinked
  | bound
  | serving
  | gone
  deriving DecidableEq

def Phase.Live : Phase → Prop
  | .absent | .gone => False
  | _ => True

/-- The process has the lock that `lock_instance` returned. -/
def Phase.PastLock : Phase → Prop
  | .locked | .unlinked | .bound | .serving => True
  | _ => False

instance : DecidablePred Phase.Live := fun x => by
  cases x <;> first | exact .isTrue trivial | exact .isFalse id

/-- How far a runner has come in `ensureCoordinatorRunning`. A waiting one keeps the last
error of its dials. -/
inductive Call where
  | idle
  | probing
  | spawning
  | waiting (lastErr : Option String)
  | returned (result : Except String String)
  | killed

/-- The lock, the socket file with the process that bound it, and the processes. -/
structure State where
  lock : Option Pid
  socket : Option Pid
  phase : Pid → Phase
  call : ℕ → Call

def State.start : State := ⟨none, none, fun _ => .absent, fun _ => .idle⟩

/-- A dial of the socket path can only succeed while the process that bound it listens. -/
def Accepts (s : State) : Prop := ∃ p, s.socket = some p ∧ s.phase p = .serving

instance (s : State) : Decidable (Accepts s) :=
  match h : s.socket with
  | none => .isFalse (by simp [Accepts, h])
  | some p => decidable_of_iff (s.phase p = .serving) (by simp [Accepts, h])

/-! ### Steps -/

inductive Label where
  | exec (p : Pid)
  | openLock (p : Pid)
  | tryLock (p : Pid)
  | removeSocket (p : Pid) (removed : Bool)
  | bind (p : Pid)
  | listen (p : Pid)
  | exits (p : Pid)
  | ensure (r : ℕ)
  | mkdirFails (r : ℕ) (err : String)
  | dial (r : ℕ) (reply : Except String Unit)
  | spawn (r : ℕ) (p : Pid)
  | spawnFails (r : ℕ) (err : String)
  | timesOut (r : ℕ)
  | cancelled (r : ℕ) (err : String)
  | killed (r : ℕ)

def State.setPhase (s : State) (p : Pid) (x : Phase) : State := { s with phase := Function.update s.phase p x }

def State.setCall (s : State) (r : ℕ) (x : Call) : State := { s with call := Function.update s.call r x }

@[simp] theorem setPhase_lock (s : State) (p : Pid) (x : Phase) : (s.setPhase p x).lock = s.lock := rfl

@[simp] theorem setPhase_socket (s : State) (p : Pid) (x : Phase) : (s.setPhase p x).socket = s.socket := rfl

@[simp] theorem setPhase_call (s : State) (p : Pid) (x : Phase) : (s.setPhase p x).call = s.call := rfl

@[simp] theorem setPhase_phase (s : State) (p q : Pid) (x : Phase) :
    (s.setPhase p x).phase q = if q = p then x else s.phase q := Function.update_apply _ _ _ _

@[simp] theorem setCall_lock (s : State) (r : ℕ) (x : Call) : (s.setCall r x).lock = s.lock := rfl

@[simp] theorem setCall_socket (s : State) (r : ℕ) (x : Call) : (s.setCall r x).socket = s.socket := rfl

@[simp] theorem setCall_phase (s : State) (r : ℕ) (x : Call) : (s.setCall r x).phase = s.phase := rfl

@[simp] theorem setCall_call (s : State) (r r' : ℕ) (x : Call) :
    (s.setCall r x).call r' = if r' = r then x else s.call r' := Function.update_apply _ _ _ _

/-- The end of a process, by an error of `main` or by a signal: its lock is free, and
its socket file stays. -/
def State.exit (s : State) (p : Pid) : State :=
  { s.setPhase p .gone with lock := if s.lock = some p then none else s.lock }

@[simp] theorem exit_lock (s : State) (p : Pid) :
    (s.exit p).lock = if s.lock = some p then none else s.lock := rfl

@[simp] theorem exit_socket (s : State) (p : Pid) : (s.exit p).socket = s.socket := rfl

@[simp] theorem exit_call (s : State) (p : Pid) : (s.exit p).call = s.call := rfl

@[simp] theorem exit_phase (s : State) (p q : Pid) :
    (s.exit p).phase q = if q = p then .gone else s.phase q := setPhase_phase s p q .gone

/-- A dial in `socketAccepts`, and one in `waitForSocket`. -/
def dialed (W : Workspace) (s : State) (r : ℕ) (reply : Except String Unit) : Option State :=
  match s.call r, reply with
  | .probing, .ok () => some (s.setCall r (.returned (.ok (sockPath W))))
  | .probing, .error _ => some (s.setCall r .spawning)
  | .waiting _, .ok () => some (s.setCall r (.returned (.ok (sockPath W))))
  | .waiting _, .error e => some (s.setCall r (.waiting (some e)))
  | _, _ => none

def step (W : Workspace) (s : State) : Label → Option State
  | .exec p => if s.phase p = .absent then some (s.setPhase p .started) else none
  | .openLock p => if s.phase p = .started then some (s.setPhase p .opened) else none
  | .tryLock p =>
    if s.phase p = .opened then
      -- the loser of the lock returns from `main`
      if s.lock = none then some { s.setPhase p .locked with lock := some p } else some (s.setPhase p .gone)
    else none
  | .removeSocket p removed =>
    if s.phase p = .locked then
      -- whether the file could be removed is ignored
      some { s.setPhase p .unlinked with socket := if removed then none else s.socket }
    else none
  | .bind p =>
    if s.phase p = .unlinked ∧ s.socket = none then some { s.setPhase p .bound with socket := some p } else none
  | .listen p => if s.phase p = .bound then some (s.setPhase p .serving) else none
  | .exits p => if (s.phase p).Live then some (s.exit p) else none
  | .ensure r =>
    match s.call r with
    | .idle => some (s.setCall r .probing)
    | _ => none
  | .mkdirFails r err =>
    match s.call r with
    | .idle => some (s.setCall r (.returned (.error ("creating socket dir " ++ socketDir W ++ ": " ++ err))))
    | _ => none
  | .dial r reply => if reply.isOk → Accepts s then dialed W s r reply else none
  | .spawn r p =>
    match s.call r with
    | .spawning => if s.phase p = .absent then some ((s.setPhase p .started).setCall r (.waiting none)) else none
    | _ => none
  | .spawnFails r err =>
    match s.call r with
    | .spawning => some (s.setCall r (.returned (.error ("starting coordinator " ++ W.coordinatorBin ++ ": " ++ err))))
    | _ => none
  | .timesOut r =>
    match s.call r with
    | .waiting lastErr => some (s.setCall r (.returned (.error ("timed out after 10s waiting for coordinator socket " ++
        sockPath W ++ ": " ++ lastErr.getD "%!w(<nil>)"))))
    | _ => none
  | .cancelled r err =>
    -- `ctx.Done` is looked at only after a dial that failed
    match s.call r with
    | .waiting (some _) => some (s.setCall r (.returned (.error err)))
    | _ => none
  | .killed r => some (s.setCall r .killed)

/-- A start may find the socket file of a process that is gone. -/
structure Initial (s : State) : Prop where
  unlocked : s.lock = none
  phase : ∀ p, s.phase p = .absent ∨ s.phase p = .gone
  owner : ∀ p, s.socket = some p → s.phase p = .gone
  call : ∀ r, s.call r = .idle

def machine (W : Workspace) : Machine State Label Unit where
  init := Initial
  step s e := (step W s e).map fun s' => ((), s')

/-! ### What a step can do -/

/-- The labels with which a runner's call fails. -/
def Label.Fails (r : ℕ) : Label → Prop
  | .mkdirFails r' _ | .spawnFails r' _ | .timesOut r' | .cancelled r' _ => r' = r
  | _ => False

/-- One constructor for each way in which a process moves. -/
inductive Move (W : Workspace) (s : State) : Label → State → Prop where
  | exec {p : Pid} : s.phase p = .absent → Move W s (.exec p) (s.setPhase p .started)
  | openLock {p : Pid} : s.phase p = .started → Move W s (.openLock p) (s.setPhase p .opened)
  | wins {p : Pid} : s.phase p = .opened → s.lock = none →
      Move W s (.tryLock p) { s.setPhase p .locked with lock := some p }
  | loses {p : Pid} : s.phase p = .opened → s.lock ≠ none → Move W s (.tryLock p) (s.setPhase p .gone)
  | removes {p : Pid} : s.phase p = .locked →
      Move W s (.removeSocket p true) { s.setPhase p .unlinked with socket := none }
  | keeps {p : Pid} : s.phase p = .locked → Move W s (.removeSocket p false) (s.setPhase p .unlinked)
  | bind {p : Pid} : s.phase p = .unlinked → s.socket = none →
      Move W s (.bind p) { s.setPhase p .bound with socket := some p }
  | listen {p : Pid} : s.phase p = .bound → Move W s (.listen p) (s.setPhase p .serving)
  | exits {p : Pid} : (s.phase p).Live → Move W s (.exits p) (s.exit p)
  | ensure {r : ℕ} : s.call r = .idle → Move W s (.ensure r) (s.setCall r .probing)
  | spawn {r : ℕ} {p : Pid} : s.call r = .spawning → s.phase p = .absent →
      Move W s (.spawn r p) ((s.setPhase p .started).setCall r (.waiting none))
  | accepted {r : ℕ} {u : Unit} : (s.call r = .probing ∨ ∃ e, s.call r = .waiting e) → Accepts s →
      Move W s (.dial r (.ok u)) (s.setCall r (.returned (.ok (sockPath W))))
  | refused {r : ℕ} {err : String} {x : Call} : (s.call r = .probing ∧ x = .spawning ∨
      (∃ e, s.call r = .waiting e) ∧ x = .waiting (some err)) → Move W s (.dial r (.error err)) (s.setCall r x)
  | fails {e : Label} {r : ℕ} {err : String} : e.Fails r → Move W s e (s.setCall r (.returned (.error err)))
  | killed {r : ℕ} : Move W s (.killed r) (s.setCall r .killed)

variable {W : Workspace} {s s' : State} {e : Label}

theorem move_of_step (h : step W s e = some s') : Move W s e s' := by
  cases e with
  | exec p =>
    obtain ⟨hp, ⟨⟩⟩ := Option.ite_none_right_eq_some.1 h
    exact .exec hp
  | openLock p =>
    obtain ⟨hp, ⟨⟩⟩ := Option.ite_none_right_eq_some.1 h
    exact .openLock hp
  | tryLock p =>
    obtain ⟨hp, h⟩ := Option.ite_none_right_eq_some.1 h
    by_cases hlock : s.lock = none
    · rw [if_pos hlock] at h
      cases h
      exact .wins hp hlock
    · rw [if_neg hlock] at h
      cases h
      exact .loses hp hlock
  | removeSocket p removed =>
    obtain ⟨hp, ⟨⟩⟩ := Option.ite_none_right_eq_some.1 h
    cases removed with
    | true => exact .removes hp
    | false => exact .keeps hp
  | bind p =>
    obtain ⟨⟨hp, hsocket⟩, ⟨⟩⟩ := Option.ite_none_right_eq_some.1 h
    exact .bind hp hsocket
  | listen p =>
    obtain ⟨hp, ⟨⟩⟩ := Option.ite_none_right_eq_some.1 h
    exact .listen hp
  | exits p =>
    obtain ⟨hp, ⟨⟩⟩ := Option.ite_none_right_eq_some.1 h
    exact .exits hp
  | ensure r =>
    simp only [step] at h
    split at h
    · next hr =>
      cases h
      exact .ensure hr
    · cases h
  | dial r reply =>
    obtain ⟨haccepts, h⟩ := Option.ite_none_right_eq_some.1 h
    unfold dialed at h
    split at h
    · next hr _ =>
      cases h
      exact .accepted (.inl hr) (haccepts rfl)
    · next hr _ =>
      cases h
      exact .refused (.inl ⟨hr, rfl⟩)
    · next hr _ =>
      cases h
      exact .accepted (.inr ⟨_, hr⟩) (haccepts rfl)
    · next hr _ =>
      cases h
      exact .refused (.inr ⟨⟨_, hr⟩, rfl⟩)
    · cases h
  | spawn r p =>
    simp only [step] at h
    split at h
    · next hr =>
      obtain ⟨hp, ⟨⟩⟩ := Option.ite_none_right_eq_some.1 h
      exact .spawn hr hp
    · cases h
  | killed r =>
    cases h
    exact .killed
  | mkdirFails r | spawnFails r | timesOut r | cancelled r =>
    simp only [step] at h
    split at h
    · cases h
      exact .fails rfl
    · cases h

end RulesSystemtest.Launch
