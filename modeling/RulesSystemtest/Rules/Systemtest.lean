import RulesSystemtest.Library.JsonLayout
import RulesSystemtest.Runner.Run
import RulesSystemtest.Runner.UnmarshalConfig
import Mathlib.Data.List.Sort

/-! The `systemtest` rule, as far as it writes the configuration of the runner: what the
runner decodes is what the target's attributes say. -/

namespace RulesSystemtest.Rules

open Library Runner

/-! ### Starlark -/

structure File where
  shortPath : String

/-- The runfiles of another repository are next to those of the workspace. -/
def rlocation (workspaceName : String) (file : File) : String :=
  match file.shortPath.toList with
  | '.' :: '.' :: '/' :: path => String.ofList path
  | _ => workspaceName ++ "/" ++ file.shortPath

/-- The members of a dictionary, in the order in which they were inserted. -/
structure StringDict where
  members : List (String × String)
  distinct : (members.map Prod.fst).Nodup

/-- `json.encode` sorts the members of a dictionary by their keys. -/
def encodeDict (members : List (String × Json)) : Json :=
  .obj ((members.insertionSort fun m m' => m.1 ≤ m'.1).map fun m => (m.1.toList, m.2))

def encodeStr (s : String) : Json := .str s.toList

def StringDict.encode (d : StringDict) : Json := encodeDict (d.members.map fun m => (m.1, encodeStr m.2))

/-- `json.encode_indent` with two spaces. -/
def encodeIndent (v : Json) : Bytes := utf8 (String.ofList (Json.printIndent [' ', ' '] 0 v))

/-- How `%r` shows a character of a string. -/
def reprChar (c : Char) : String :=
  if c = '"' then "\\\""
  else if c = '\\' then "\\\\"
  else if c = '\n' then "\\n"
  else if c = '\r' then "\\r"
  else if c = '\t' then "\\t"
  else if c.toNat < 0x20 then
    "\\x" ++ String.ofList [Nat.digitChar (c.toNat / 16), Nat.digitChar (c.toNat % 16)]
  else String.singleton c

def repr (s : String) : String := "\"" ++ String.join (s.toList.map reprChar) ++ "\""

/-! ### The rule -/

/-- What a `systemtest` target is analyzed with. The binaries are those of the
toolchains, if any is registered. -/
structure Context where
  workspaceName : String
  label : String
  mode : String
  runner : Option File
  coordinator : Option File
  test : File
  fixtures : List (Label × File)
  testArgs : List String
  testEnv : StringDict

def coordinatorModeLocal : String := "local"

def runnerToolchainType : String := "//systemtest/toolchains:runner_toolchain_type"

def coordinatorToolchainType : String := "//systemtest/toolchains:coordinator_toolchain_type"

def missingToolchain (what type : String) : String :=
  "no " ++ what ++ " is registered for " ++ type ++ ".\n\n" ++
    "rules_systemtest ships precompiled binaries, but none matched (no release for\n" ++
    "this platform, or an unreleased version of the ruleset). To build them from\n" ++
    "source, add to your MODULE.bazel:\n\n" ++
    "    bazel_dep(name = \"rules_systemtest_src\", version = \"<rules_systemtest version>\")\n" ++
    "    register_toolchains(\"@rules_systemtest_src//toolchains:all\")\n"

def resolve (toolchain : Option File) (type what : String) : Except String File :=
  match toolchain with
  | none => .error (missingToolchain what type)
  | some file => .ok file

/-- The fixtures, with the runfiles paths of their descriptions. -/
def fixtureTargets (ctx : Context) : List FixtureTarget :=
  ctx.fixtures.map fun f => ⟨f.1, rlocation ctx.workspaceName f.2⟩

def runConfig (ctx : Context) (coordinator : File) : Json :=
  encodeDict
    [("systemtest_label", encodeStr ctx.label),
      ("mode", encodeStr ctx.mode),
      ("coordinator_bin", encodeStr (rlocation ctx.workspaceName coordinator)),
      ("lease_ttl_seconds", .num (.ofNat 60)),
      ("startup_timeout_seconds", .num (.ofNat 300)),
      ("fixtures", .arr ((fixturesConfig (fixtureTargets ctx)).map fun fc =>
        encodeDict [("name", encodeStr fc.name), ("description_path", encodeStr fc.descriptionPath)])),
      ("test", encodeDict
        [("binary_path", encodeStr (rlocation ctx.workspaceName ctx.test)),
          ("args", .arr (ctx.testArgs.map encodeStr)),
          ("env", ctx.testEnv.encode)])]

/-- The configuration file that the rule writes. -/
def systemtestImpl (ctx : Context) : Except String Bytes := do
  if ctx.mode ≠ coordinatorModeLocal then
    .error ("scaffold only supports coordinator_mode=local, got " ++ repr ctx.mode)
  else
    let _ ← resolve ctx.runner runnerToolchainType "systemtest runner"
    let coordinator ← resolve ctx.coordinator coordinatorToolchainType "systemtest coordinator"
    return encodeIndent (runConfig ctx coordinator)

/-! ### What the runner decodes -/

/-- The configuration that the attributes of the target stand for. -/
def configOf (ctx : Context) (coordinator : File) : RunConfig where
  systemtestLabel := ctx.label
  coordinatorBin := rlocation ctx.workspaceName coordinator
  leaseTTLSeconds := 60
  startupTimeoutSeconds := 300
  fixtures := fixturesConfig (fixtureTargets ctx)
  test := ⟨rlocation ctx.workspaceName ctx.test, ctx.testArgs, insertAll ∅ ctx.testEnv.members⟩

theorem storeString_encodeStr (field old s : String) : storeString field old (encodeStr s) = .ok s := by
  rw [encodeStr, storeString, String.ofList_toList]

theorem storeMap_encode (field : String) (d : StringDict) :
    storeMap field ∅ d.encode = .ok (insertAll ∅ d.members) := by
  let sorted := d.members.insertionSort fun m m' => m.1 ≤ m'.1
  have hsorted : (d.members.map fun m => (m.1, encodeStr m.2)).insertionSort (fun m m' => m.1 ≤ m'.1) =
      sorted.map fun m => (m.1, encodeStr m.2) :=
    (List.map_insertionSort _ _ (fun m : String × String => (m.1, encodeStr m.2)) _ fun _ _ _ _ => Iff.rfl).symm
  rw [StringDict.encode, encodeDict, hsorted, List.map_map, storeMap]
  have hstore := foldlM_storeEntryOf field sorted ∅
  rw [insertAll_perm d.distinct (List.perm_insertionSort _ _)] at hstore
  exact hstore

theorem storeFixture_encode (old fc : FixtureConfig) : storeFixture old
    (encodeDict [("name", encodeStr fc.name), ("description_path", encodeStr fc.descriptionPath)]) = .ok fc := by
  have hsorted : encodeDict [("name", encodeStr fc.name), ("description_path", encodeStr fc.descriptionPath)] =
      .obj [("description_path".toList, encodeStr fc.descriptionPath), ("name".toList, encodeStr fc.name)] := by
    simp [encodeDict, List.insertionSort, List.orderedInsert]
  have hdescription : ∀ (fc : FixtureConfig) v, storeFixtureField fc ("description_path".toList, v) =
      (storeString "FixtureConfig.fixtures.description_path" fc.descriptionPath v).map fun s =>
        { fc with descriptionPath := s } := fun _ _ => rfl
  have hname : ∀ (fc : FixtureConfig) v, storeFixtureField fc ("name".toList, v) =
      (storeString "FixtureConfig.fixtures.name" fc.name v).map fun s => { fc with name := s } := fun _ _ => rfl
  rw [hsorted, storeFixture]
  simp only [List.foldlM_cons, List.foldlM_nil, hdescription, hname, storeString_encodeStr]
  rfl

theorem storeFixtures_encode (old fcs : List FixtureConfig) :
    storeSlice storeFixture ⟨"", ""⟩ "RunConfig.fixtures" "[]runner.FixtureConfig" old (.arr (fcs.map fun fc =>
      encodeDict [("name", encodeStr fc.name), ("description_path", encodeStr fc.descriptionPath)])) = .ok fcs := by
  have hstore : storeElements storeFixture ⟨"", ""⟩ old (fcs.map fun fc =>
      encodeDict [("name", encodeStr fc.name), ("description_path", encodeStr fc.descriptionPath)]) =
      .ok (fcs.map id) := storeElements_map storeFixture_encode old fcs
  rwa [List.map_id] at hstore

theorem storeStrings_encode (field : String) (args old : List String) :
    storeSlice (storeString field) "" field "[]string" old (.arr (args.map encodeStr)) = .ok args := by
  have hstore : storeElements (storeString field) "" old (args.map encodeStr) = .ok (args.map id) :=
    storeElements_map (storeString_encodeStr field) old args
  rwa [List.map_id] at hstore

theorem storeTest_encode (path : String) (args : List String) (env : StringDict) :
    storeTest ⟨"", [], ∅⟩ (encodeDict
      [("binary_path", encodeStr path), ("args", .arr (args.map encodeStr)), ("env", env.encode)]) =
      .ok ⟨path, args, insertAll ∅ env.members⟩ := by
  have hsorted : ∀ v v' v'', encodeDict [("binary_path", v), ("args", v'), ("env", v'')] =
      .obj [("args".toList, v'), ("binary_path".toList, v), ("env".toList, v'')] := by
    intro v v' v''
    simp [encodeDict, List.insertionSort, List.orderedInsert]
  have hargs : ∀ (test : TestConfig) v, storeTestField test ("args".toList, v) =
      (storeSlice (storeString "TestConfig.test.args") "" "TestConfig.test.args" "[]string" test.args v).map
        fun args => { test with args := args } := fun _ _ => rfl
  have hpath : ∀ (test : TestConfig) v, storeTestField test ("binary_path".toList, v) =
      (storeString "TestConfig.test.binary_path" test.binaryPath v).map fun s => { test with binaryPath := s } :=
    fun _ _ => rfl
  have henv : ∀ (test : TestConfig) v, storeTestField test ("env".toList, v) =
      (storeMap "TestConfig.test.env" test.env v).map fun env => { test with env := env } := fun _ _ => rfl
  rw [hsorted, storeTest]
  simp only [List.foldlM_cons, List.foldlM_nil, hargs, hpath, henv, storeStrings_encode, storeString_encodeStr]
  change ((storeMap _ ∅ env.encode).map _ >>= pure) = _
  rw [storeMap_encode]
  rfl

/-- What is written for a target is decoded as what it stands for. -/
theorem unmarshalConfig_runConfig (ctx : Context) (coordinator : File) :
    unmarshalConfig (encodeIndent (runConfig ctx coordinator)) = .ok (configOf ctx coordinator) := by
  have hsorted : ∀ v₁ v₂ v₃ v₄ v₅ v₆ v₇, encodeDict [("systemtest_label", v₁), ("mode", v₂), ("coordinator_bin", v₃),
      ("lease_ttl_seconds", v₄), ("startup_timeout_seconds", v₅), ("fixtures", v₆), ("test", v₇)] =
      .obj [("coordinator_bin".toList, v₃), ("fixtures".toList, v₆), ("lease_ttl_seconds".toList, v₄),
        ("mode".toList, v₂), ("startup_timeout_seconds".toList, v₅), ("systemtest_label".toList, v₁),
        ("test".toList, v₇)] := by
    intro v₁ v₂ v₃ v₄ v₅ v₆ v₇
    simp [encodeDict, List.insertionSort, List.orderedInsert]
  have hread : Json.read (runes (encodeIndent (runConfig ctx coordinator))) = some (runConfig ctx coordinator) := by
    rw [encodeIndent, utf8, runes_toUTF8, String.toList_ofList]
    exact Json.read_printIndent (by decide) _
  have hcoordinator : ∀ (cfg : RunConfig) v, storeConfigField cfg ("coordinator_bin".toList, v) =
      (storeString "RunConfig.coordinator_bin" cfg.coordinatorBin v).map fun s => { cfg with coordinatorBin := s } :=
    fun _ _ => rfl
  have hfixtures : ∀ (cfg : RunConfig) v, storeConfigField cfg ("fixtures".toList, v) =
      (storeSlice storeFixture ⟨"", ""⟩ "RunConfig.fixtures" "[]runner.FixtureConfig" cfg.fixtures v).map
        fun fixtures => { cfg with fixtures := fixtures } := fun _ _ => rfl
  have httl : ∀ (cfg : RunConfig), storeConfigField cfg ("lease_ttl_seconds".toList, .num (.ofNat 60)) =
      .ok { cfg with leaseTTLSeconds := 60 } := fun _ => rfl
  have hmode : ∀ (cfg : RunConfig) v, storeConfigField cfg ("mode".toList, v) =
      (storeString "RunConfig.mode" "" v).map fun _ => cfg := fun _ _ => rfl
  have htimeout : ∀ (cfg : RunConfig), storeConfigField cfg ("startup_timeout_seconds".toList, .num (.ofNat 300)) =
      .ok { cfg with startupTimeoutSeconds := 300 } := fun _ => rfl
  have hlabel : ∀ (cfg : RunConfig) v, storeConfigField cfg ("systemtest_label".toList, v) =
      (storeString "RunConfig.systemtest_label" cfg.systemtestLabel v).map fun s => { cfg with systemtestLabel := s } :=
    fun _ _ => rfl
  have htest : ∀ (cfg : RunConfig) v, storeConfigField cfg ("test".toList, v) =
      (storeTest cfg.test v).map fun test => { cfg with test := test } := fun _ _ => rfl
  rw [unmarshalConfig, hread, runConfig, hsorted]
  simp only [List.foldlM_cons, List.foldlM_nil, hcoordinator, hfixtures, httl, hmode, htimeout, hlabel, htest,
    storeString_encodeStr]
  change ((storeSlice _ _ _ _ [] (.arr ((fixturesConfig (fixtureTargets ctx)).map _))).map _ >>= _) = _
  rw [storeFixtures_encode]
  change ((storeTest ⟨"", [], ∅⟩ (encodeDict _)).map _ >>= pure) = _
  rw [storeTest_encode]
  rfl

end RulesSystemtest.Rules
