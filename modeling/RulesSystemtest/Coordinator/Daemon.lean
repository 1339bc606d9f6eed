import RulesSystemtest.Library.Machine
import RulesSystemtest.Coordinator.Service

/-! The running coordinator: every lock-protected section, every stretch of a
`take_lease` future between two awaits, and every move of the world around it is
one step, so that a run is any interleaving of concurrent calls, exits of plugin
processes and writes to the file system. A step's label carries what it draws and
what its environment answers. No section panics while it holds the lock, so the
lock is never poisoned. -/

namespace RulesSystemtest

open Library

abbrev CallId := ℕ

/-- Where a `take_lease` future stands. From `connected` on it owns the plugin guard. -/
inductive Phase where
  | fingerprinted
  | provisioning
  | connecting (child : Child) (socketPath : String) (deadline : Instant)
  | connected (plugin : PluginProcess)
  | described (plugin : PluginProcess)
  | created (plugin : PluginProcess) (result : FixtureResult)
  deriving DecidableEq

inductive Call where
  | running (a : Admitted) (p : Phase)
  | finished
  deriving DecidableEq

/-- A child process: the executable it runs, how it ended if it did, and whether
the coordinator sent it a kill. -/
structure Process where
  image : Bytes
  exited : Option String
  killed : Bool
  deriving DecidableEq

structure World where
  state : State
  calls : HashMap CallId Call
  processes : HashMap Child Process
  files : FileSystem

/-! ### Labels -/

/-- How the operating system answers a spawn. -/
inductive SpawnAnswer where
  | dirFailed (e : String)
  | commandFailed (e : String)
  | started (child : Child) (now : Instant)

/-- How a dial of the plugin's socket ends; the poll of the child may fail too. -/
inductive DialAnswer where
  | ok
  | err (e : String) (pollError : Option String) (now : Instant)

inductive Event where
  | takeLease (c : CallId) (req : TakeLeaseRequest)
  | reuse (c : CallId) (random : LeaseId)
  | spawn (c : CallId) (uuid : String) (answer : SpawnAnswer)
  | tryConnect (c : CallId) (answer : DialAnswer)
  | describe (c : CallId) (reply : Except String Unit)
  | createFixture (c : CallId) (fixtureId : FixtureId) (reply : Except String CreateStream)
  | insert (c : CallId) (random : LeaseId)
  | cancel (c : CallId)
  | keepalive (leaseId : String)
  | releaseLease (leaseId : String)
  | status (leaseId : String)
  | exit (child : Child) (status : String)
  | write (path : String) (contents : Except String Bytes)

/-- One successful `CreateFixture` together with its plugin process. -/
structure Instance where
  call : CallId
  admitted : Admitted
  child : Child
  request : CreateRequest
  result : FixtureResult
  deriving DecidableEq

/-- A lease handed out: by which call, and on the instance of which process. -/
structure Grant where
  call : CallId
  admitted : Admitted
  child : Child
  outputs : BTreeMap Value
  deriving DecidableEq

/-- What a step shows: the reply of a call, or the progress of one. -/
inductive Obs where
  | silent
  | started (c : CallId) (child : Child)
  | created (i : Instance)
  | granted (lease : LeaseId) (g : Grant) (resp : TakeLeaseResponse)
  | refused (c : CallId) (s : Status)
  | cancelled (c : CallId)
  | panicked (c : CallId) (child : Child)
  | kept (leaseId : String) (reply : Except Status Unit)
  | released (leaseId : String)
  | reported (leaseId : String) (reply : Except Status StatusResponse)
  deriving DecidableEq

/-! ### Steps -/

def World.setCall (w : World) (c : CallId) (k : Call) : World := { w with calls := w.calls.insert c k }

def World.refuse (w : World) (c : CallId) (code : Code) (message : String) : Obs × World :=
  (.refused c ⟨code, message⟩, w.setCall c .finished)

/-- Dropping a `PluginProcess` sends its child a kill. -/
def World.dropPlugin (w : World) (plugin : PluginProcess) : World :=
  match w.processes.lookup plugin.child with
  | some p => { w with processes := w.processes.insert plugin.child { p with killed := true } }
  | none => w

def World.dropRecord (w : World) : Option FixtureRecord → World
  | some record => w.dropPlugin record.plugin
  | none => w

def stepTakeLease (H : Host) (w : World) (c : CallId) (req : TakeLeaseRequest) : Option (Obs × World) :=
  match w.calls.lookup c with
  | some _ => none
  | none =>
    match takeLeaseValidate H w.files req with
    | .ok a => some (.silent, w.setCall c (.running a .fingerprinted))
    | .error s => some (w.refuse c s.code s.message)

def stepReuse (w : World) (c : CallId) (a : Admitted) (random : LeaseId) : Obs × World :=
  match findReusable w.state a with
  | some record =>
    let (resp, st) := takeLeaseAttach w.state a record random
    (.granted random ⟨c, a, record.plugin.child, resp.outputs⟩ resp,
      { w with state := st }.setCall c .finished)
  | none => (.silent, w.setCall c (.running a .provisioning))

/-- `PluginProcess::spawn` up to its first await. The child runs what the path
holds now; an overflowing deadline panics and drops the child's handle. -/
def stepSpawn (H : Host) (w : World) (c : CallId) (a : Admitted) (uuid : String) :
    SpawnAnswer → Option (Obs × World)
  | .dirFailed e =>
    some (w.refuse c .internal ("spawning plugin: " ++
      context ("creating plugin socket dir " ++ debugStr (pluginSocketDir H)) e))
  | .commandFailed e =>
    some (w.refuse c .internal ("spawning plugin: " ++
      context ("spawning plugin binary " ++ a.binaryPath) e))
  | .started child now =>
    match w.processes.lookup child, w.files a.binaryPath with
    | none, .ok image =>
      let w := { w with processes := w.processes.insert child ⟨image, none, false⟩ }
      match now.add (startupTimeout a.desc) with
      | some deadline =>
        some (.started c child,
          w.setCall c (.running a (.connecting child (pluginSocketPath H uuid) deadline)))
      | none => some (.panicked c child, w.setCall c .finished)
    | _, _ => none

/-- What the dial of the plugin's socket means for the connect loop: polling a
child that exited reports its status. -/
def World.attempt (w : World) (child : Child) : DialAnswer → Attempt
  | .ok => .ok
  | .err e (some pollError) now => .err e (.error pollError) now
  | .err e none now => .err e (.ok ((w.processes.lookup child).bind (·.exited))) now

/-- One turn of the connect loop. A failed turn drops the bare child, which keeps
running. -/
def stepTryConnect (w : World) (c : CallId) (a : Admitted) (child : Child) (socketPath : String)
    (deadline : Instant) (answer : DialAnswer) : Obs × World :=
  match connectTurn socketPath deadline (w.attempt child answer) with
  | .connected => (.silent, w.setCall c (.running a (.connected ⟨child⟩)))
  | .failed e => w.refuse c .internal ("spawning plugin: " ++ e)
  | .again => (.silent, w)

def stepDescribe (w : World) (c : CallId) (a : Admitted) (plugin : PluginProcess) :
    Except String Unit → Obs × World
  | .ok () => (.silent, w.setCall c (.running a (.described plugin)))
  | .error e => (w.dropPlugin plugin).refuse c .internal ("DescribePlugin: " ++ e)

def stepCreateFixture (w : World) (c : CallId) (a : Admitted) (plugin : PluginProcess)
    (fixtureId : FixtureId) (reply : Except String CreateStream) : Obs × World :=
  match createFixture reply with
  | .ok result =>
    (.created ⟨c, a, plugin.child, createRequest a fixtureId, result⟩,
      w.setCall c (.running a (.created plugin result)))
  | .error e => (w.dropPlugin plugin).refuse c .internal ("CreateFixture: " ++ e)

def stepInsert (w : World) (c : CallId) (a : Admitted) (plugin : PluginProcess) (result : FixtureResult)
    (random : LeaseId) : Obs × World :=
  let (resp, st) := takeLeaseInsert w.state a plugin result random
  (.granted random ⟨c, a, plugin.child, resp.outputs⟩ resp,
    ({ w with state := st }.dropRecord (w.state.fixtures.lookup a.fp)).setCall c .finished)

/-- Dropping the future at an await: inside the connect loop the child has no
guard, after it the guard goes with the future. -/
def stepCancel (w : World) (c : CallId) : Phase → Option (Obs × World)
  | .connecting _ _ _ => some (.cancelled c, w.setCall c .finished)
  | .connected plugin | .described plugin =>
    some (.cancelled c, (w.dropPlugin plugin).setCall c .finished)
  | _ => none

/-- A step of the future of call `c`, from the phase it is in. -/
def stepCall (H : Host) (w : World) (c : CallId) (a : Admitted) : Phase → Event → Option (Obs × World)
  | .fingerprinted, .reuse _ random => some (stepReuse w c a random)
  | .provisioning, .spawn _ uuid answer => stepSpawn H w c a uuid answer
  | .connecting child socketPath deadline, .tryConnect _ answer =>
    some (stepTryConnect w c a child socketPath deadline answer)
  | .connected plugin, .describe _ reply => some (stepDescribe w c a plugin reply)
  | .described plugin, .createFixture _ fixtureId reply =>
    some (stepCreateFixture w c a plugin fixtureId reply)
  | .created plugin result, .insert _ random => some (stepInsert w c a plugin result random)
  | p, .cancel _ => stepCancel w c p
  | _, _ => none

/-- The call whose future a step moves. -/
def Event.call? : Event → Option CallId
  | .reuse c _ | .spawn c _ _ | .tryConnect c _ | .describe c _ | .createFixture c _ _ | .insert c _
  | .cancel c => some c
  | _ => none

def step (H : Host) (w : World) (e : Event) : Option (Obs × World) :=
  match e with
  | .takeLease c req => stepTakeLease H w c req
  | .keepalive leaseId => some (.kept leaseId (keepalive w.state leaseId), w)
  | .releaseLease leaseId => some (.released leaseId, { w with state := releaseLease w.state leaseId })
  | .status leaseId => some (.reported leaseId (status w.state leaseId), w)
  | .exit child status =>
    match w.processes.lookup child with
    | some ⟨image, none, killed⟩ =>
      some (.silent, { w with processes := w.processes.insert child ⟨image, some status, killed⟩ })
    | _ => none
  | .write path contents => some (.silent, { w with files := Function.update w.files path contents })
  | e =>
    match e.call? with
    | some c =>
      match w.calls.lookup c with
      | some (.running a p) => stepCall H w c a p e
      | _ => none
    | none => none

def World.start (files : FileSystem) : World := ⟨⟨∅, ∅⟩, ∅, ∅, files⟩

/-- A coordinator starts with nothing stored, whatever the file system holds. -/
def daemon (H : Host) : Machine World Event Obs where
  init w := ∃ files, w = .start files
  step := step H

abbrev Moment := Transition World Event Obs

abbrev History := List Moment

/-- A run of the coordinator: its history, latest first, and the world it reached. -/
abbrev Runs (H : Host) : History → World → Prop := (daemon H).Run

end RulesSystemtest
