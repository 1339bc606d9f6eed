import RulesSystemtest.Runner.Config
import RulesSystemtest.Runner.Unmarshal

/-! `json.Unmarshal` into a run configuration, in the way of the ports schema. A map
keeps the entries that it holds, and a slice stores over the elements that it held. The
mode has to be a string, and is read by nothing. -/

namespace RulesSystemtest.Runner

open Library

/-! ### Numbers, slices and maps -/

def storeInt64 (field : String) (old : Int64) : Json → Except String Int64
  | .num n =>
    match parseInt n.literal with
    | some i => .ok i
    | none => .error (typeError ("number " ++ String.ofList n.literal) field "int64")
  | .null => .ok old
  | v => .error (typeError (kindOf v) field "int64")

def storeElements {α : Type} (store : α → Json → Except String α) (zero : α) :
    List α → List Json → Except String (List α)
  | _, [] => .ok []
  | old, v :: vs => do
    let x ← store (old.headD zero) v
    let xs ← storeElements store zero old.tail vs
    return x :: xs

def storeSlice {α : Type} (store : α → Json → Except String α) (zero : α) (field goType : String) (old : List α) :
    Json → Except String (List α)
  | .arr vs => storeElements store zero old vs
  | .null => .ok []
  | v => .error (typeError (kindOf v) field goType)

def storeEntryOf (field : String) (env : Env) (member : List Char × Json) : Except String Env :=
  (storeString field "" member.2).map fun s => env.insert (String.ofList member.1) s

def storeMap (field : String) (old : Env) : Json → Except String Env
  | .obj members => members.foldlM (storeEntryOf field) old
  | .null => .ok ∅
  | v => .error (typeError (kindOf v) field "map[string]string")

/-! ### The configuration -/

def storeFixtureField (fc : FixtureConfig) (member : List Char × Json) : Except String FixtureConfig :=
  if matchesField member.1 "name" then
    (storeString "FixtureConfig.fixtures.name" fc.name member.2).map fun s => { fc with name := s }
  else if matchesField member.1 "description_path" then
    (storeString "FixtureConfig.fixtures.description_path" fc.descriptionPath member.2).map fun s =>
      { fc with descriptionPath := s }
  else .ok fc

def storeFixture (old : FixtureConfig) : Json → Except String FixtureConfig
  | .obj members => members.foldlM storeFixtureField old
  | .null => .ok old
  | v => .error (typeError (kindOf v) "RunConfig.fixtures" "runner.FixtureConfig")

def storeTestField (test : TestConfig) (member : List Char × Json) : Except String TestConfig :=
  if matchesField member.1 "binary_path" then
    (storeString "TestConfig.test.binary_path" test.binaryPath member.2).map fun s => { test with binaryPath := s }
  else if matchesField member.1 "args" then
    (storeSlice (storeString "TestConfig.test.args") "" "TestConfig.test.args" "[]string" test.args member.2).map
      fun args => { test with args := args }
  else if matchesField member.1 "env" then
    (storeMap "TestConfig.test.env" test.env member.2).map fun env => { test with env := env }
  else .ok test

def storeTest (old : TestConfig) : Json → Except String TestConfig
  | .obj members => members.foldlM storeTestField old
  | .null => .ok old
  | v => .error (typeError (kindOf v) "RunConfig.test" "runner.TestConfig")

def RunConfig.zero : RunConfig := ⟨"", "", 0, 0, [], ⟨"", [], ∅⟩⟩

def storeConfigField (cfg : RunConfig) (member : List Char × Json) : Except String RunConfig :=
  if matchesField member.1 "systemtest_label" then
    (storeString "RunConfig.systemtest_label" cfg.systemtestLabel member.2).map fun s =>
      { cfg with systemtestLabel := s }
  else if matchesField member.1 "mode" then (storeString "RunConfig.mode" "" member.2).map fun _ => cfg
  else if matchesField member.1 "coordinator_bin" then
    (storeString "RunConfig.coordinator_bin" cfg.coordinatorBin member.2).map fun s => { cfg with coordinatorBin := s }
  else if matchesField member.1 "lease_ttl_seconds" then
    (storeInt64 "RunConfig.lease_ttl_seconds" cfg.leaseTTLSeconds member.2).map fun i =>
      { cfg with leaseTTLSeconds := i }
  else if matchesField member.1 "startup_timeout_seconds" then
    (storeInt64 "RunConfig.startup_timeout_seconds" cfg.startupTimeoutSeconds member.2).map fun i =>
      { cfg with startupTimeoutSeconds := i }
  else if matchesField member.1 "fixtures" then
    (storeSlice storeFixture ⟨"", ""⟩ "RunConfig.fixtures" "[]runner.FixtureConfig" cfg.fixtures member.2).map
      fun fixtures => { cfg with fixtures := fixtures }
  else if matchesField member.1 "test" then (storeTest cfg.test member.2).map fun test => { cfg with test := test }
  else .ok cfg

def unmarshalConfig (data : Bytes) : Except String RunConfig :=
  match Json.read (runes data) with
  | some (.obj members) => members.foldlM storeConfigField .zero
  | some .null => .ok .zero
  | some v => .error ("json: cannot unmarshal " ++ kindOf v ++ " into Go value of type runner.RunConfig")
  | none => .error "json: invalid syntax"

/-! ### Slices and maps that are well typed -/

theorem storeElements_map {α β : Type} {store : α → Json → Except String α} {zero : α} {encode : β → Json} {f : β → α}
    (h : ∀ old x, store old (encode x) = .ok (f x)) (old : List α) (xs : List β) :
    storeElements store zero old (xs.map encode) = .ok (xs.map f) := by
  induction xs generalizing old with
  | nil => rfl
  | cons x xs ih =>
    rw [List.map_cons, storeElements, h, ih]
    rfl

/-- The members of an object, laid over the entries of a map. -/
def insertAll (env : Env) (ms : List (String × String)) : Env := ms.foldl (fun env m => env.insert m.1 m.2) env

theorem foldlM_storeEntryOf (field : String) (ms : List (String × String)) (env : Env) :
    (ms.map fun m => (m.1.toList, Json.str m.2.toList)).foldlM (storeEntryOf field) env = .ok (insertAll env ms) := by
  induction ms generalizing env with
  | nil => rfl
  | cons m ms ih =>
    rw [List.map_cons, List.foldlM_cons, storeEntryOf, storeString, String.ofList_toList, Except.map,
      String.ofList_toList]
    exact ih _

def memberVar (m : String × String) (k : String) : Option String := if k = m.1 then some m.2 else none

theorem lookup_insertAll (env : Env) (ms : List (String × String)) (k : String) :
    (insertAll env ms).lookup k = (overlay memberVar ms k).or (env.lookup k) := by
  refine overlay_foldl (fun (env : Env) k => Finmap.lookup k env) (fun env m k => ?_) env ms k
  rw [HashMap.lookup_insert, memberVar]
  split
  · rfl
  · exact Option.none_or.symm

theorem agree_memberVar {ms : List (String × String)} (hkeys : (ms.map Prod.fst).Nodup) :
    ms.Pairwise (Agree memberVar) := by
  refine (List.pairwise_map.1 hkeys).imp fun {m m'} hne k u v hu hv => ?_
  have hk : k = m.1 := by
    by_contra hk
    rw [memberVar, if_neg hk] at hu
    cases hu
  rw [memberVar, if_neg (hk ▸ hne)] at hv
  cases hv

/-- Members with distinct keys can be stored in any order. -/
theorem insertAll_perm {ms ms' : List (String × String)} (hkeys : (ms.map Prod.fst).Nodup) (hperm : ms'.Perm ms) :
    insertAll ∅ ms' = insertAll ∅ ms := by
  refine Finmap.ext_lookup fun k => ?_
  rw [lookup_insertAll, lookup_insertAll, overlay_perm_iff.2 (agree_memberVar hkeys) ms' ms hperm (.refl _)]

theorem lookup_insertAll_of_mem {ms : List (String × String)} (hkeys : (ms.map Prod.fst).Nodup) {m : String × String}
    (hm : m ∈ ms) : (insertAll ∅ ms).lookup m.1 = some m.2 := by
  have hkeeps := overlay_keeps_iff.2 (agree_of_pairwise (agree_memberVar hkeys) (.refl ms)) m hm m.1 m.2 (if_pos rfl)
  rw [lookup_insertAll, hkeeps, Option.some_or]

theorem mem_of_mem_insertAll {ms : List (String × String)} {k : String} (hk : k ∈ insertAll ∅ ms) :
    ∃ m ∈ ms, m.1 = k := by
  obtain ⟨v, hv⟩ := Finmap.mem_iff.1 hk
  rw [lookup_insertAll, Finmap.lookup_empty, Option.or_none] at hv
  obtain ⟨m, hm, hvar⟩ := exists_of_overlay hv
  refine ⟨m, hm, ?_⟩
  by_contra hne
  rw [memberVar, if_neg (Ne.symm hne)] at hvar
  cases hvar

end RulesSystemtest.Runner
