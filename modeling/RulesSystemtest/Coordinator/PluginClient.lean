import RulesSystemtest.Library.FirstOutcome
import RulesSystemtest.Coordinator.Fixture

/-! The plugin child process and the client that talks to it: the turns of the
connect loop, and the `CreateFixture` stream drained to its terminal message.
Answers of the operating system and of the plugin are arguments. -/

namespace RulesSystemtest

open Library

/-- A child process, told apart from every other one ever spawned. -/
structure Child where
  id : ℕ
  deriving DecidableEq

/-- The guard of a connected plugin: dropping it kills the child. -/
structure PluginProcess where
  child : Child
  deriving DecidableEq

/-! ### Clock -/

/-- A clock reading, as the signed seconds and nanoseconds of a `timespec`. -/
structure Instant where
  secs : Int64
  nanos : Fin 1000000000
  deriving DecidableEq

/-- `Instant + Duration::from_secs`, where `none` is the panic on overflow. -/
def Instant.add (t : Instant) (seconds : UInt64) : Option Instant :=
  if t.secs.toInt + seconds.toNat < 2 ^ 63 then
    some { t with secs := Int64.ofInt (t.secs.toInt + seconds.toNat) }
  else none

def Instant.le (s t : Instant) : Bool := s.secs < t.secs || (s.secs == t.secs && s.nanos ≤ t.nanos)

/-! ### `Debug` renderings inside error texts -/

/-- The escapes of `{:?}`. A character outside ASCII is left as it is. -/
def escapeDebug (c : Char) : String :=
  if c = '"' then "\\\""
  else if c = '\\' then "\\\\"
  else if c = '\n' then "\\n"
  else if c = '\r' then "\\r"
  else if c = '\t' then "\\t"
  else if c = '\x00' then "\\0"
  else if c.toNat < 0x20 ∨ c.toNat = 0x7f then
    "\\u\x7b" ++ String.ofList (Nat.toDigits 16 c.toNat) ++ "\x7d"
  else String.singleton c

def debugStr (s : String) : String := "\"" ++ String.join (s.toList.map escapeDebug) ++ "\""

def debugList (xs : List String) : String := "[" ++ ", ".intercalate xs ++ "]"

/-- A known number shows as its name. -/
def debugElementStatus (i : Int32) : String :=
  if i = 0 then "FixtureElementUnknown"
  else if i = 1 then "FixtureElementCreating"
  else if i = 2 then "FixtureElementRunning"
  else if i = 3 then "FixtureElementError"
  else toString i

def FixtureElementStatusInfo.debug (info : FixtureElementStatusInfo) : String :=
  "FixtureElementStatusInfo \x7b element_name: " ++ debugStr info.elementName ++ ", status: " ++
    debugElementStatus info.status ++ ", messages: " ++ debugList (info.messages.map debugStr) ++ " \x7d"

/-! ### Connecting -/

/-- What one turn of the connect loop meets: a channel, or a failed dial followed
by a poll of the child and a clock reading. -/
inductive Attempt where
  | ok
  | err (e : String) (tryWait : Except String (Option String)) (now : Instant)

inductive Turn where
  | connected
  | failed (e : String)
  | again
  deriving DecidableEq

/-- One turn of the loop in `connect_with_retry`. -/
def connectTurn (socketPath : String) (deadline : Instant) : Attempt → Turn
  | .ok => .connected
  | .err _ (.error poll) _ => .failed (context "polling plugin process" poll)
  | .err e (.ok (some status)) _ =>
    .failed (context ("plugin process exited (" ++ status ++ ") before serving " ++ debugStr socketPath) e)
  | .err e (.ok none) now =>
    if deadline.le now then .failed (context "timed out connecting to plugin socket" e) else .again

/-- The loop of `connect_with_retry`, which goes on where the turns that it met end. -/
def connectLoop (socketPath : String) (deadline : Instant) : List Attempt → Turn
  | [] => .again
  | attempt :: attempts =>
    match connectTurn socketPath deadline attempt with
    | .connected => .connected
    | .failed e => .failed e
    | .again => connectLoop socketPath deadline attempts

/-- The outer `none` is the panic when the deadline overflows. -/
def connectWithRetry (socketPath : String) (timeout : UInt64) (now : Instant) (attempts : List Attempt) : Option Turn :=
  (now.add timeout).map fun deadline => connectLoop socketPath deadline attempts

/-! ### CreateFixture -/

/-- The items of the progress stream, an error being one of the transport. -/
abbrev CreateStream := List (Except String CreateProgress)

def drainCreateStream : CreateStream → Except String FixtureResult
  | [] => .error "plugin closed CreateFixture stream without a terminal message"
  | .error e :: _ => .error e
  | .ok progress :: rest =>
    match CreateProgressStatus.ofInt32 progress.status with
    | .succeeded =>
      match progress.result with
      | some result => .ok result
      | none => .error "CREATE_PROGRESS_SUCCEEDED with no result"
    | .error =>
      .error ("plugin CreateFixture failed: " ++ debugList (progress.elementInfos.map (·.debug)))
    | _ => drainCreateStream rest

/-- The call itself may fail before there is a stream. -/
def createFixture (reply : Except String CreateStream) : Except String FixtureResult :=
  match reply with
  | .ok stream => drainCreateStream stream
  | .error e => .error e

/-- Success and error end the stream; every other status keeps it draining. -/
def CreateProgress.terminal (p : CreateProgress) : Prop :=
  CreateProgressStatus.ofInt32 p.status = .succeeded ∨ CreateProgressStatus.ofInt32 p.status = .error

/-- How an item ends the draining, if it does. -/
def itemOutcome : Except String CreateProgress → Option (Except String FixtureResult)
  | .error e => some (.error e)
  | .ok progress =>
    match CreateProgressStatus.ofInt32 progress.status with
    | .succeeded =>
      match progress.result with
      | some result => some (.ok result)
      | none => some (.error "CREATE_PROGRESS_SUCCEEDED with no result")
    | .error => some (.error ("plugin CreateFixture failed: " ++ debugList (progress.elementInfos.map (·.debug))))
    | _ => none

theorem drainCreateStream_eq (stream : CreateStream) : drainCreateStream stream =
    firstOutcome itemOutcome (.error "plugin closed CreateFixture stream without a terminal message") stream := by
  induction stream with
  | nil => rfl
  | cons x stream ih =>
    cases x with
    | error e => rfl
    | ok progress =>
      rw [firstOutcome, ← ih, drainCreateStream, itemOutcome]
      cases CreateProgressStatus.ofInt32 progress.status with
      | succeeded => cases progress.result <;> rfl
      | _ => rfl

theorem itemOutcome_eq_none_iff {x : Except String CreateProgress} :
    itemOutcome x = none ↔ ∃ p, x = .ok p ∧ ¬ p.terminal := by
  cases x with
  | error e => simp [itemOutcome]
  | ok progress =>
    simp only [itemOutcome, CreateProgress.terminal, Except.ok.injEq, exists_eq_left']
    cases CreateProgressStatus.ofInt32 progress.status with
    | succeeded => cases progress.result <;> simp
    | _ => simp

theorem itemOutcome_eq_ok_iff {x : Except String CreateProgress} {result : FixtureResult} :
    itemOutcome x = some (.ok result) ↔
      ∃ p, x = .ok p ∧ CreateProgressStatus.ofInt32 p.status = .succeeded ∧ p.result = some result := by
  cases x with
  | error e => simp [itemOutcome]
  | ok progress =>
    simp only [itemOutcome, Except.ok.injEq, exists_eq_left']
    cases CreateProgressStatus.ofInt32 progress.status with
    | succeeded => cases progress.result <;> simp
    | _ => simp

/-- The stream yields the result of its first terminal message, if that is a success
with one. -/
theorem drainCreateStream_eq_ok {stream : CreateStream} {result : FixtureResult} :
    drainCreateStream stream = .ok result ↔ ∃ before progress rest,
      stream = before ++ .ok progress :: rest ∧
      (∀ x ∈ before, ∃ p, x = .ok p ∧ ¬ p.terminal) ∧
      CreateProgressStatus.ofInt32 progress.status = .succeeded ∧ progress.result = some result := by
  rw [drainCreateStream_eq]
  refine (firstOutcome_eq_iff (by simp)).trans ?_
  simp only [itemOutcome_eq_none_iff, itemOutcome_eq_ok_iff]
  constructor
  · rintro ⟨before, x, rest, rfl, hbefore, progress, rfl, hstatus, hresult⟩
    exact ⟨before, progress, rest, rfl, hbefore, hstatus, hresult⟩
  · rintro ⟨before, progress, rest, rfl, hbefore, hstatus, hresult⟩
    exact ⟨before, .ok progress, rest, rfl, hbefore, progress, rfl, hstatus, hresult⟩

theorem createFixture_eq_ok {reply : Except String CreateStream} {result : FixtureResult} :
    createFixture reply = .ok result ↔ ∃ stream, reply = .ok stream ∧ drainCreateStream stream = .ok result := by
  cases reply <;> simp [createFixture]

end RulesSystemtest
