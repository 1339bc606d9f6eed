import RulesSystemtest.Coordinator.Fixture
import RulesSystemtest.Runner.Env

/-! What the runner resolves before it calls anyone: its configuration, the descriptions
of the fixtures, and the identity of the client. Runfiles, files, decoders and the
operating system are arguments. -/

namespace RulesSystemtest.Runner

/-! ### Configuration -/

structure FixtureConfig where
  name : String
  descriptionPath : String

structure TestConfig where
  binaryPath : String
  args : List String
  env : Env

structure RunConfig where
  systemtestLabel : String
  coordinatorBin : String
  leaseTTLSeconds : Int64
  startupTimeoutSeconds : Int64
  fixtures : List FixtureConfig
  test : TestConfig

/-- The label of a target. -/
structure Label where
  package : String
  name : String
  deriving DecidableEq

/-- A fixture target, with the runfiles path of its description. -/
structure FixtureTarget where
  label : Label
  descriptionFile : String

/-- The fixtures that the `systemtest` rule writes into a configuration. The name of a
fixture is that of its target, without the package. -/
def fixturesConfig (targets : List FixtureTarget) : List FixtureConfig :=
  targets.map fun target => ⟨target.label.name, target.descriptionFile⟩

/-- Where the runner reads what it is configured with. -/
structure Sources where
  rlocation : String → Except String String
  readFile : String → Except String Bytes
  unmarshalConfig : Bytes → Except String RunConfig
  unmarshalDescription : Bytes → Except String FixtureDescription

def resolveRlocation (S : Sources) (path : String) : Except String String :=
  match S.rlocation path with
  | .error e => .error ("resolving rlocation " ++ quote path ++ ": " ++ e)
  | .ok resolved => .ok resolved

def loadRunConfig (S : Sources) (rlocationPath : String) : Except String RunConfig :=
  match resolveRlocation S rlocationPath with
  | .error e => .error ("resolving --run-config: " ++ e)
  | .ok path =>
    match S.readFile path with
    | .error e => .error ("reading run config " ++ path ++ ": " ++ e)
    | .ok data =>
      match S.unmarshalConfig data with
      | .error e => .error ("parsing run config " ++ path ++ ": " ++ e)
      | .ok cfg => .ok cfg

/-! ### Descriptions of fixtures -/

structure ResolvedFixture where
  name : String
  description : FixtureDescription

def getBinaryPath (d : FixtureDescription) : String :=
  match d.plugin with
  | some (.binaryPath path) => path
  | _ => ""

/-- The daemon has no runfiles, so the path of the plugin binary is resolved here. -/
def loadFixtureDescription (S : Sources) (fc : FixtureConfig) : Except String ResolvedFixture :=
  match resolveRlocation S fc.descriptionPath with
  | .error e => .error ("fixture " ++ quote fc.name ++ ": " ++ e)
  | .ok path =>
    match S.readFile path with
    | .error e => .error ("fixture " ++ quote fc.name ++ ": reading description " ++ path ++ ": " ++ e)
    | .ok data =>
      match S.unmarshalDescription data with
      | .error e => .error ("fixture " ++ quote fc.name ++ ": parsing description " ++ path ++ ": " ++ e)
      | .ok desc =>
        if getBinaryPath desc = "" then .ok ⟨fc.name, desc⟩
        else
          match resolveRlocation S (getBinaryPath desc) with
          | .error e => .error ("fixture " ++ quote fc.name ++ ": binary_path: " ++ e)
          | .ok resolved => .ok ⟨fc.name, { desc with plugin := some (.binaryPath resolved) }⟩

theorem loadFixtureDescription_name {S : Sources} {fc : FixtureConfig} {fx : ResolvedFixture}
    (h : loadFixtureDescription S fc = .ok fx) : fx.name = fc.name := by
  unfold loadFixtureDescription at h
  split at h
  · cases h
  · split at h
    · cases h
    · split at h
      · cases h
      · split at h
        · cases h
          rfl
        · split at h
          · cases h
          · cases h
            rfl

/-! ### The client -/

/-- What the operating system tells about the process that runs. -/
structure Process where
  executable : Except String String
  evalSymlinks : String → Except String Bytes
  nodeID : Bytes
  currentUser : Except String Bytes
  sha256 : Bytes → Bytes

/-- The resolved path of the runner stands for the workspace. -/
def workspaceKey (P : Process) : Except String Bytes :=
  match P.executable with
  | .error e => .error ("locating runner binary: " ++ e)
  | .ok exe =>
    match P.evalSymlinks exe with
    | .error e => .error ("resolving runner binary " ++ exe ++ ": " ++ e)
    | .ok resolved => .ok resolved

def username (P : Process) : Bytes :=
  match P.currentUser with
  | .ok name => if name = [] then utf8 "unknown" else name
  | .error _ => utf8 "unknown"

def computeClientID (P : Process) (wsKey : Bytes) : String :=
  hexEncode (P.sha256 (P.nodeID ++ [0] ++ username P ++ [0] ++ wsKey))

end RulesSystemtest.Runner
