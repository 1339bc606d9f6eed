import RulesSystemtest.Coordinator.History
import RulesSystemtest.Runner.Stepwise

/-! A deployment: one coordinator, any number of runners, and the remote calls between
them. A call is a request on its way, then it is served, then it is a reply on its way.
Requests and replies arrive in any order, late or never; runners start when they like
and may be killed. A run is any interleaving of the steps of all of them. -/

namespace RulesSystemtest.Deployment

open Library Runner

abbrev RunnerId := ℕ

/-! ### States -/

/-- A runner, and the remote call that its main thread made last. -/
structure Member where
  job : Job
  locals : Local
  call : Option CallId

/-- A remote call. A call of `TakeLease` is `serving` while its handler runs. What
`Keepalive` and `ReleaseLease` reply is not looked at by anyone. -/
inductive Rpc where
  | takeLease (req : TakeLeaseRequest)
  | serving
  | took (reply : Except RulesSystemtest.Status TakeLeaseResponse)
  | status (leaseID : String)
  | told (reply : Except RulesSystemtest.Status StatusResponse)
  | keepalive (leaseID : String)
  | releaseLease (leaseID : String)
  | done

structure State where
  coordinator : RulesSystemtest.World
  runners : HashMap RunnerId Member
  rpcs : HashMap CallId Rpc

def State.start (files : FileSystem) : State := ⟨.start files, ∅, ∅⟩

/-! ### Labels -/

inductive Event where
  | start (r : RunnerId) (J : Job)
  | send (r : RunnerId) (c : CallId)
  | receive (r : RunnerId)
  | fail (r : RunnerId) (err : String)
  | expire (r : RunnerId)
  | startTest (r : RunnerId) (failure : Option String)
  | endTest (r : RunnerId) (how : TestEnd) (took : ℕ)
  | exit (r : RunnerId)
  | crash (r : RunnerId)
  | beat (r : RunnerId) (n : ℕ) (c : CallId)
  | arrive (c : CallId)
  | lose (c : CallId)
  | serve (e : RulesSystemtest.Event)

/-- What a step shows: a runner that starts, what a runner does, or a step of the
coordinator. -/
inductive Obs where
  | silent
  | started (r : RunnerId)
  | did (r : RunnerId) (t : List Runner.Event)
  | moved (e : RulesSystemtest.Event) (o : RulesSystemtest.Obs)

/-! ### Remote calls -/

def codeName : Code → String
  | .invalidArgument => "InvalidArgument"
  | .unimplemented => "Unimplemented"
  | .internal => "Internal"
  | .notFound => "NotFound"

/-- The text of a status at the client. -/
def rpcError (s : RulesSystemtest.Status) : String := "rpc error: code = " ++ codeName s.code ++ " desc = " ++ s.message

/-- What the main thread of a runner sends next. -/
def nextCall (J : Job) (L : Local) : Option (Input × Rpc) :=
  match L.stage with
  | .leasing (fx :: _) => some (.call, .takeLease (takeLeaseRequest J fx))
  | .polling _ _ leaseID => some (.tick, .status leaseID)
  | .releasing _ => L.leases.head?.map fun lease => (.release, .releaseLease lease.id)
  | _ => none

/-- What a reply is to the runner that waits for it. -/
def Rpc.input? : Rpc → Option Input
  | .took reply => some (.took (reply.mapError rpcError))
  | .told reply => some (.told (reply.mapError rpcError))
  | _ => none

/-- What a call that ends without a reply is to the runner that waits for it. -/
def failure? (L : Local) (err : String) : Option Input :=
  match L.stage with
  | .taking _ _ => some (.took (.error err))
  | .asking _ _ _ => some (.told (.error err))
  | _ => none

/-- The request that arrives at the coordinator. -/
def Rpc.request? (c : CallId) : Rpc → Option RulesSystemtest.Event
  | .takeLease req => some (.takeLease c req)
  | .status leaseID => some (.status leaseID)
  | .keepalive leaseID => some (.keepalive leaseID)
  | .releaseLease leaseID => some (.releaseLease leaseID)
  | _ => none

/-- What becomes of a call when the coordinator took its request. -/
def arrived : RulesSystemtest.Obs → Rpc
  | .silent => .serving
  | .refused _ s => .took (.error s)
  | .reported _ reply => .told reply
  | _ => .done

/-- The call that a step of the coordinator ends, if any. The handlers of a call that is
cancelled or panics do not reply. -/
def ended? : RulesSystemtest.Obs → Option (CallId × Rpc)
  | .granted _ g resp => some (g.call, .took (.ok resp))
  | .refused c s => some (c, .took (.error s))
  | .cancelled c | .panicked c _ => some (c, .done)
  | _ => none

/-- A call that can get lost, as a request or as a reply. -/
def Rpc.inFlight : Rpc → Bool
  | .serving | .done => false
  | _ => true

/-- The steps of the coordinator that are no request's. -/
def isInternal : RulesSystemtest.Event → Bool
  | .takeLease _ _ | .keepalive _ | .releaseLease _ | .status _ => false
  | _ => true

/-! ### Steps -/

/-- A step of a runner, which sets the call that it waits for. -/
def State.act (D : State) (r : RunnerId) (m : Member) (i : Input) (call : Option CallId) : Option (Obs × State) :=
  (m.locals.step m.job i).map fun s => (.did r s.1, { D with runners := D.runners.insert r ⟨m.job, s.2, call⟩ })

def stepSend (D : State) (r : RunnerId) (m : Member) (c : CallId) : Option (Obs × State) :=
  match D.rpcs.lookup c, nextCall m.job m.locals with
  | none, some (i, rpc) => { D with rpcs := D.rpcs.insert c rpc }.act r m i (some c)
  | _, _ => none

def stepReceive (D : State) (r : RunnerId) (m : Member) : Option (Obs × State) :=
  match m.call with
  | some c =>
    match (D.rpcs.lookup c).bind Rpc.input? with
    | some i => { D with rpcs := D.rpcs.insert c .done }.act r m i none
    | none => none
  | none => none

/-- The keepalive loop of a lease that is held. -/
def stepBeat (D : State) (m : Member) (n : ℕ) (c : CallId) : Option (Obs × State) :=
  match D.rpcs.lookup c, m.locals.leases.find? (·.stop = n) with
  | none, some lease => some (.silent, { D with rpcs := D.rpcs.insert c (.keepalive lease.id) })
  | _, _ => none

/-- What the runner `r` does, if it runs. -/
def stepRunner (D : State) (r : RunnerId) (m : Member) : Event → Option (Obs × State)
  | .send _ c => stepSend D r m c
  | .receive _ => stepReceive D r m
  | .fail _ err => (failure? m.locals err).bind fun i => D.act r m i none
  | .expire _ => D.act r m .expire none
  | .startTest _ failure => D.act r m (.start failure) none
  | .endTest _ how took => D.act r m (.ended how took) none
  | .exit _ => D.act r m .exit none
  | .crash _ => some (.silent, { D with runners := D.runners.erase r })
  | .beat _ n c => stepBeat D m n c
  | _ => none

def stepArrive (H : Host) (D : State) (c : CallId) : Option (Obs × State) :=
  match (D.rpcs.lookup c).bind (Rpc.request? c) with
  | some e =>
    (RulesSystemtest.step H D.coordinator e).map fun s =>
      (.moved e s.1, { D with coordinator := s.2, rpcs := D.rpcs.insert c (arrived s.1) })
  | none => none

def stepLose (D : State) (c : CallId) : Option (Obs × State) :=
  match D.rpcs.lookup c with
  | some rpc => if rpc.inFlight then some (.silent, { D with rpcs := D.rpcs.insert c .done }) else none
  | none => none

def endCall (rpcs : HashMap CallId Rpc) : Option (CallId × Rpc) → HashMap CallId Rpc
  | some (c, rpc) => rpcs.insert c rpc
  | none => rpcs

def stepServe (H : Host) (D : State) (e : RulesSystemtest.Event) : Option (Obs × State) :=
  if isInternal e then
    (RulesSystemtest.step H D.coordinator e).map fun s =>
      (.moved e s.1, { D with coordinator := s.2, rpcs := endCall D.rpcs (ended? s.1) })
  else none

/-- The runner whose step an event is. -/
def Event.runner? : Event → Option RunnerId
  | .send r _ | .receive r | .fail r _ | .expire r | .startTest r _ | .endTest r _ _ | .exit r | .crash r
  | .beat r _ _ => some r
  | _ => none

def step (H : Host) (D : State) (e : Event) : Option (Obs × State) :=
  match e with
  | .start r J =>
    match D.runners.lookup r with
    | none => some (.started r, { D with runners := D.runners.insert r ⟨J, .start J, none⟩ })
    | some _ => none
  | .arrive c => stepArrive H D c
  | .lose c => stepLose D c
  | .serve e => stepServe H D e
  | e =>
    match e.runner? with
    | some r =>
      match D.runners.lookup r with
      | some m => stepRunner D r m e
      | none => none
    | none => none

/-- At first there is only the coordinator. -/
def deployment (H : Host) : Machine State Event Obs where
  init D := ∃ files, D = .start files
  step := step H

abbrev Moment := Transition State Event Obs

abbrev History := List Moment

/-- A run of a deployment: its history, latest first, and the state it reached. -/
abbrev Runs (H : Host) : History → State → Prop := (deployment H).Run

end RulesSystemtest.Deployment
