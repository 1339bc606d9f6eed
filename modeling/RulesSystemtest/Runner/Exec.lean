import RulesSystemtest.Library.Separator
import RulesSystemtest.Runner.Trace

/-! The inner test and its report. -/

namespace RulesSystemtest.Runner

open Library

/-! ### Environment of the test -/

/-- The byte `=`. -/
def equals : UInt8 := 0x3d

/-- The name and the value of a `K=V` string, which is split at its first `=`. -/
def splitEnv (kv : Bytes) : Option (Bytes × Bytes) := splitFirst equals kv

def mergeBase (merged : HashMap Bytes Bytes) (kv : Bytes) : HashMap Bytes Bytes :=
  match splitEnv kv with
  | some (k, v) => merged.insert k v
  | none => merged

/-- The base strings, overlaid with each of the maps. -/
def merge (base : List Bytes) (overlays : List (HashMap Bytes Bytes)) : HashMap Bytes Bytes :=
  overlays.foldl (fun merged overlay => overlay ∪ merged) (base.foldl mergeBase ∅)

/-- The strings come in an order that is not determined. -/
def mergeEnv (base : List Bytes) (overlays : List (HashMap Bytes Bytes)) : Multiset Bytes :=
  (merge base overlays).entries.map fun kv => kv.1 ++ equals :: kv.2

/-- The strings that the runner decoded or made, as the bytes that they are in Go. -/
def encodeEnv (env : Env) : HashMap Bytes Bytes where
  entries := env.entries.map fun kv => ⟨utf8 kv.1, utf8 kv.2⟩
  nodupKeys := by
    have hkeys := env.nodupKeys.nodup_keys.map utf8_injective
    rw [← Multiset.nodup_keys]
    simpa [Multiset.keys, Multiset.map_map] using hkeys

/-! ### The test binary -/

inductive TestAnswer where
  | notStarted (err : String)
  | ran (took : ℕ) (how : TestEnd)

/-- The code and the error of `(int, error)`. The code of a process that was ended by a
signal is -1. -/
def runTestBinary (binaryPath : String) (args : List String) (environ : List Bytes) (injectedEnv configEnv : Env)
    (answer : TestAnswer) : Logged (Int × Option String) :=
  match answer with
  | .notStarted err => ⟨(-1, some ("running test binary " ++ binaryPath ++ ": " ++ err)), []⟩
  | .ran took how =>
    let env := mergeEnv environ [encodeEnv injectedEnv, encodeEnv configEnv]
    let trace := [.testStarted binaryPath args env, .elapse took, .testEnded how]
    match how with
    | .exited status => ⟨(status, none), trace⟩
    | .signaled => ⟨(-1, none), trace⟩
    | .lost err => ⟨(-1, some ("running test binary " ++ binaryPath ++ ": " ++ err)), trace⟩

/-! ### The report -/

/-- Where the report goes: the XML encoder and the file system. -/
structure ReportSink where
  xmlOutputFile : String
  marshalIndent : JunitTestsuite → Except String Bytes
  writeFile : String → Bytes → Except String Unit

def junitSuite (label : String) (exitCode : Int) (duration : ℕ) : JunitTestsuite :=
  let failure : Option JunitFailure :=
    if exitCode ≠ 0 then
      some ⟨"exited with code " ++ exitCode.repr, "test binary exited with code " ++ exitCode.repr⟩
    else none
  ⟨label, 1, if exitCode ≠ 0 then 1 else 0, duration, [⟨label, label, duration, failure⟩]⟩

def xmlHeader : String := "<?xml version=\"1.0\" encoding=\"UTF-8\"?>\n"

def writeJUnitReport (S : ReportSink) (label : String) (exitCode : Int) (duration : ℕ) : Logged (Except String Unit) :=
  if S.xmlOutputFile = "" then ⟨.ok (), []⟩
  else
    let suite := junitSuite label exitCode duration
    match S.marshalIndent suite with
    | .error e => ⟨.error ("marshaling junit report: " ++ e), []⟩
    | .ok out =>
      match S.writeFile S.xmlOutputFile (utf8 xmlHeader ++ out) with
      | .error e =>
        ⟨.error ("writing junit report to " ++ S.xmlOutputFile ++ ": " ++ e), [.report S.xmlOutputFile suite]⟩
      | .ok () => ⟨.ok (), [.report S.xmlOutputFile suite]⟩

/-- The report counts a failure exactly when the code is not zero. -/
theorem failures_junitSuite (label : String) (exitCode : Int) (duration : ℕ) :
    (junitSuite label exitCode duration).failures = 1 ↔ exitCode ≠ 0 := by
  by_cases h : exitCode = 0
  · simp [junitSuite, h]
  · simp [junitSuite, h]

theorem mem_writeJUnitReport {S : ReportSink} {label : String} {exitCode : Int} {duration : ℕ} {e : Event}
    (h : e ∈ (writeJUnitReport S label exitCode duration).trace) :
    e = .report S.xmlOutputFile (junitSuite label exitCode duration) := by
  unfold writeJUnitReport at h
  split at h
  · cases h
  · dsimp only at h
    split at h
    · cases h
    · split at h
      · exact List.mem_singleton.1 h
      · exact List.mem_singleton.1 h

end RulesSystemtest.Runner
