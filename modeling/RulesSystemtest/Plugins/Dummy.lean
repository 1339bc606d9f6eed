import RulesSystemtest.Coordinator.PluginClient
import RulesSystemtest.Runner.Ports

/-! The dummy plugin, which echoes the ports it is asked for as a `systemtest.ports`
output, and the runner's reading of that output. The two agree exactly when no port is
too large for the runner's signed integers. What `serde_json` makes of the input is an
argument. -/

namespace RulesSystemtest.Dummy

open Library Runner

/-! ### The encoder -/

inductive JsonNumber where
  | posInt (n : UInt64)
  | negInt (n : Int64)
  | float (bits : UInt64)

/-- `serde_json::Value`. -/
inductive JsonValue where
  | null
  | bool (b : Bool)
  | number (n : JsonNumber)
  | string (s : String)
  | array (elements : List JsonValue)
  | object (members : List (String × JsonValue))

def JsonNumber.asU64 : JsonNumber → Option UInt64
  | .posInt n => some n
  | _ => none

/-- `str::parse::<u64>`. -/
def parseU64 (s : String) : Option UInt64 :=
  let digits := if s.toList.head? = some '+' then s.toList.tail else s.toList
  if digits ≠ [] ∧ digits.all Char.isDigit ∧ Nat.ofDigitChars 10 digits 0 < 2 ^ 64 then
    some (UInt64.ofNat (Nat.ofDigitChars 10 digits 0))
  else none

/-- The port that a value of the input asks for. -/
def portOf : JsonValue → UInt64
  | .string s => (parseU64 s).getD 0
  | .number n => n.asU64.getD 0
  | _ => 0

def portJson (name : String) (port : UInt64) : Json :=
  .obj [("host".toList, .str "127.0.0.1".toList), ("name".toList, .str name.toList),
    ("port".toList, .num (.ofNat port.toNat)), ("protocol".toList, .str "tcp".toList),
    ("tunnel".toList, .bool false)]

/-- One entry for each key of the input, in the order of the keys. Input that is no
JSON object counts as an empty one. -/
def portsSchemaBlob (fromStr : String → Except String (BTreeMap JsonValue)) (portsInput : String) : Bytes :=
  let parsed := (fromStr portsInput).toOption.getD ∅
  let names := parsed.toList.mergeSort fun m m' => m.1 ≤ m'.1
  let ports := names.map fun m => portJson m.1 (portOf m.2)
  utf8 (String.ofList (Json.print (.obj [("ports".toList, .arr ports)])))

def portsInput (req : CreateRequest) : String :=
  match req.inputs.get? "ports" with
  | some ⟨some (.str s)⟩ => s
  | _ => "\x7b\x7d"

/-- The outputs of the fixture that the plugin creates for a ports input. -/
def outputs (fromStr : String → Except String (BTreeMap JsonValue)) (portsInput : String) : BTreeMap Value :=
  (∅ : BTreeMap Value).insert "endpoints"
    ⟨some (.schemaBlob ⟨"systemtest.ports", portsSchemaBlob fromStr portsInput⟩)⟩

/-- The one message of the progress stream. -/
def createFixture (fromStr : String → Except String (BTreeMap JsonValue)) (req : CreateRequest) : CreateStream :=
  [.ok ⟨4, [], some ⟨outputs fromStr (portsInput req), 60, utf8 "stub", []⟩⟩]

/-! ### The decoder on what is encoded -/

variable {fromStr : String → Except String (BTreeMap JsonValue)}

theorem parseInt_ofNat (n : ℕ) : parseInt (Json.Number.ofNat n).literal =
    if n < 2 ^ 63 then some (Int64.ofNat n) else none := by
  have hdigits : ∀ c ∈ Nat.toDigits 10 n, c.isDigit = true :=
    fun c hc => Nat.isDigit_of_mem_toDigits (by decide) (by decide) hc
  have hall : (Nat.toDigits 10 n).all Char.isDigit = true := List.all_eq_true.2 hdigits
  rw [Json.Number.ofNat, parseInt.eq_def]
  split
  · next ds heq =>
    have hsign : Nat.toDigits 10 n = '-' :: ds := heq
    rw [hsign] at hdigits
    exact absurd (hdigits '-' List.mem_cons_self) (by decide)
  · simp only [Nat.toDigits_ne_nil, hall, Nat.ofDigitChars_ten_toDigits, ne_eq, not_false_eq_true, true_and]

/-- The entry that the runner reads. -/
def portEntry (name : String) (port : UInt64) : PortEntry :=
  ⟨name, "tcp", false, "127.0.0.1", Int64.ofNat port.toNat⟩

theorem toOption_eq_some {α : Type} {x : Except String α} {a : α} : x.toOption = some a ↔ x = .ok a := by
  cases x <;> simp [Except.toOption]

theorem toOption_eq_none {α : Type} {x : Except String α} : x.toOption = none ↔ ∃ e, x = .error e := by
  cases x <;> simp [Except.toOption]

/-- The port fits the runner's signed integers. -/
def Fits (v : JsonValue) : Prop := (portOf v).toNat < 2 ^ 63

instance (v : JsonValue) : Decidable (Fits v) := inferInstanceAs (Decidable (_ < _))

/-- An entry is read as it was meant, unless its port is too large. -/
theorem storeEntry_portJson (name : String) (v : JsonValue) :
    (storeEntry .zero (portJson name (portOf v))).toOption =
      if Fits v then some (portEntry name (portOf v)) else none := by
  have hint := parseInt_ofNat (portOf v).toNat
  by_cases hport : Fits v
  · rw [if_pos (show (portOf v).toNat < 2 ^ 63 from hport)] at hint
    rw [if_pos hport]
    simp [storeEntry, portJson, storeField, matchesField, foldRune, storeString, storeInt, storeBool, hint]
    rfl
  · rw [if_neg (show ¬ (portOf v).toNat < 2 ^ 63 from hport)] at hint
    rw [if_neg hport]
    simp [storeEntry, portJson, storeField, matchesField, foldRune, storeString, storeInt, storeBool, hint]
    rfl

theorem storeEntries_portJson (ms : List (String × JsonValue)) :
    (storeEntries [] (ms.map fun m => portJson m.1 (portOf m.2))).toOption =
      if ∀ m ∈ ms, Fits m.2 then some (ms.map fun m => portEntry m.1 (portOf m.2)) else none := by
  induction ms with
  | nil => rfl
  | cons m ms ih =>
    have hentry := storeEntry_portJson m.1 m.2
    have hall : (∀ x ∈ m :: ms, Fits x.2) ↔ Fits m.2 ∧ ∀ x ∈ ms, Fits x.2 := List.forall_mem_cons
    rw [List.map_cons, storeEntries, List.headD_nil, List.tail_nil]
    by_cases hm : Fits m.2
    · rw [if_pos hm] at hentry
      rw [toOption_eq_some.1 hentry]
      by_cases hms : ∀ x ∈ ms, Fits x.2
      · rw [if_pos hms] at ih
        rw [if_pos (hall.2 ⟨hm, hms⟩), toOption_eq_some.1 ih]
        rfl
      · rw [if_neg hms] at ih
        obtain ⟨e, he⟩ := toOption_eq_none.1 ih
        rw [if_neg fun h => hms (hall.1 h).2, he]
        rfl
    · rw [if_neg hm] at hentry
      obtain ⟨e, he⟩ := toOption_eq_none.1 hentry
      rw [if_neg fun h => hm (hall.1 h).1, he]
      rfl

/-- The members of the input, in the order in which they are written. -/
def members (fromStr : String → Except String (BTreeMap JsonValue)) (portsInput : String) :
    List (String × JsonValue) :=
  ((fromStr portsInput).toOption.getD ∅).toList.mergeSort fun m m' => m.1 ≤ m'.1

theorem unmarshal_portsSchemaBlob (fromStr : String → Except String (BTreeMap JsonValue)) (portsInput : String) :
    (unmarshal (portsSchemaBlob fromStr portsInput)).toOption =
      if ∀ m ∈ members fromStr portsInput, Fits m.2 then
        some ⟨(members fromStr portsInput).map fun m => portEntry m.1 (portOf m.2)⟩ else none := by
  have hread : Json.read (runes (portsSchemaBlob fromStr portsInput)) = some (.obj [("ports".toList,
      .arr ((members fromStr portsInput).map fun m => portJson m.1 (portOf m.2)))]) := by
    rw [portsSchemaBlob, utf8, runes_toUTF8, String.toList_ofList, Json.read_print]
    rfl
  have hentries := storeEntries_portJson (members fromStr portsInput)
  have hports : matchesField "ports".toList "ports" = true := by decide
  rw [unmarshal, hread]
  simp only [List.foldlM_cons, List.foldlM_nil, storeSchema, storePorts, hports, if_true]
  by_cases hfits : ∀ m ∈ members fromStr portsInput, Fits m.2
  · rw [if_pos hfits] at hentries ⊢
    rw [toOption_eq_some.1 hentries]
    rfl
  · rw [if_neg hfits] at hentries ⊢
    obtain ⟨e, he⟩ := toOption_eq_none.1 hentries
    rw [he]
    rfl

/-! ### The variables of the fixture -/

variable {portsInput : String}

theorem toList_outputs (portsInput : String) : (outputs fromStr portsInput).toList =
    [("endpoints", ⟨some (.schemaBlob ⟨portsSchemaID, portsSchemaBlob fromStr portsInput⟩)⟩)] := rfl

theorem mem_members {m : String × JsonValue} :
    m ∈ members fromStr portsInput ↔ ∃ parsed, fromStr portsInput = .ok parsed ∧ m ∈ parsed.toList := by
  rw [members, List.mem_mergeSort]
  cases fromStr portsInput with
  | error e =>
    have hempty : (∅ : BTreeMap JsonValue).toList = [] := rfl
    simp [Except.toOption, hempty]
  | ok parsed => simp [Except.toOption]

theorem members_perm {parsed : BTreeMap JsonValue} (h : fromStr portsInput = .ok parsed) :
    (members fromStr portsInput).Perm parsed.toList := by
  rw [members, h]
  exact List.mergeSort_perm _ _

/-- The blob is well formed exactly when all ports fit. -/
theorem wellFormed_outputs : (∀ o ∈ (outputs fromStr portsInput).toList, WellFormed unmarshal o.2) ↔
    ∀ m ∈ members fromStr portsInput, Fits m.2 := by
  have hblob := unmarshal_portsSchemaBlob fromStr portsInput
  rw [toList_outputs, List.forall_mem_singleton, WellFormed, portsOf, getSchemaBlob]
  simp only [if_true]
  by_cases hfits : ∀ m ∈ members fromStr portsInput, Fits m.2
  · rw [if_pos hfits] at hblob
    rw [toOption_eq_some.1 hblob]
    exact iff_of_true ⟨_, rfl⟩ hfits
  · rw [if_neg hfits] at hblob
    obtain ⟨e, he⟩ := toOption_eq_none.1 hblob
    rw [he]
    refine iff_of_false ?_ hfits
    rintro ⟨ports, hports⟩
    cases hports

/-- A port that is too large fails the whole lease. -/
theorem portEnvFromOutputs_not_fits (fixtureName : String) (h : ¬ ∀ m ∈ members fromStr portsInput, Fits m.2) :
    ∃ e, portEnvFromOutputs unmarshal fixtureName (outputs fromStr portsInput).toList = .error e := by
  rw [← wellFormed_outputs] at h
  push Not at h
  exact portEnvFromOutputs_error fixtureName h

theorem entries_outputs (hfits : ∀ m ∈ members fromStr portsInput, Fits m.2) :
    ((outputs fromStr portsInput).toList.flatMap fun o => entries unmarshal o.2) =
      (members fromStr portsInput).map fun m => portEntry m.1 (portOf m.2) := by
  have hblob := unmarshal_portsSchemaBlob fromStr portsInput
  rw [if_pos hfits] at hblob
  rw [toList_outputs, List.flatMap_singleton, entries, portsOf, getSchemaBlob]
  simp only [if_true]
  rw [toOption_eq_some.1 hblob]
  rfl

theorem itoa_ofNat {n : UInt64} (h : n.toNat < 2 ^ 63) : itoa (Int64.ofNat n.toNat) = n.toNat.repr := by
  rw [itoa, Int64.toInt_ofNat_of_lt h]
  rfl

/-- The variables of one entry. -/
theorem entryVars_portEntry {fixturePrefix name k x : String} {v : JsonValue} (h : Fits v) :
    entryVars fixturePrefix (portEntry name (portOf v)) k = some x ↔
      k = hostVar fixturePrefix (envFragment name) ∧ x = "127.0.0.1" ∨
      k = portVar fixturePrefix (envFragment name) ∧ x = (portOf v).toNat.repr := by
  have hne := hostVar_ne_portVar fixturePrefix (envFragment name) fixturePrefix (envFragment name)
  have hport : itoa (portEntry name (portOf v)).port = (portOf v).toNat.repr := itoa_ofNat h
  constructor
  · intro hx
    obtain ⟨-, ⟨rfl, rfl⟩ | ⟨rfl, rfl⟩⟩ := entryVars_eq_some hx
    · exact .inl ⟨rfl, rfl⟩
    · exact .inr ⟨rfl, hport⟩
  · rintro (⟨rfl, rfl⟩ | ⟨rfl, rfl⟩)
    · rw [entryVars_host, endpoint, if_pos ⟨rfl, rfl⟩]
      rfl
    · rw [entryVars_port, endpoint, if_pos ⟨rfl, rfl⟩]
      exact congrArg some hport

/-- Entries with distinct sanitized names set no common variable. -/
theorem agree_portEntry {fixturePrefix : String} {ms : List (String × JsonValue)}
    (h : (ms.map fun m => envFragment m.1).Nodup) :
    ∀ p ∈ ms.map (fun m => portEntry m.1 (portOf m.2)), ∀ q ∈ ms.map (fun m => portEntry m.1 (portOf m.2)),
      Agree (entryVars fixturePrefix) p q := by
  intro p hp q hq k u v hu hv
  obtain ⟨m, hm, rfl⟩ := List.mem_map.1 hp
  obtain ⟨m', hm', rfl⟩ := List.mem_map.1 hq
  have hname : envFragment m.1 = envFragment m'.1 := by
    obtain ⟨-, ⟨hk, -⟩ | ⟨hk, -⟩⟩ := entryVars_eq_some hu <;>
      obtain ⟨-, ⟨hk', -⟩ | ⟨hk', -⟩⟩ := entryVars_eq_some hv
    · exact varName_inj.1 (hostVar_eq_iff.1 (hk.symm.trans hk'))
    · exact absurd (hk.symm.trans hk') (hostVar_ne_portVar _ _ _ _)
    · exact absurd (hk'.symm.trans hk) (hostVar_ne_portVar _ _ _ _)
    · exact varName_inj.1 (portVar_eq_iff.1 (hk.symm.trans hk'))
  obtain rfl := List.inj_on_of_nodup_map h hm hm' hname
  exact Option.some.inj (hu.symm.trans hv)

/-- The number that a value stands for, if it is a `u64`. -/
def u64? : JsonValue → Option UInt64
  | .string s => parseU64 s
  | .number n => n.asU64
  | _ => none

theorem portOf_eq (v : JsonValue) : portOf v = (u64? v).getD 0 := by
  cases v <;> rfl

theorem fits_iff (v : JsonValue) : Fits v ↔ ∀ n, u64? v = some n → n.toNat < 2 ^ 63 := by
  rw [Fits, portOf_eq]
  cases u64? v with
  | none => simp
  | some n => simp

/-- The runner reads the output without error, and if the input is an object whose keys
have pairwise distinct sanitized names, each key gets its host and its port, and there
are no other variables. -/
def PortsAgree (fromStr : String → Except String (BTreeMap JsonValue)) (fixtureName portsInput : String) : Prop :=
  ∃ env, portEnvFromOutputs unmarshal fixtureName (outputs fromStr portsInput).toList = .ok env ∧
    ∀ parsed, fromStr portsInput = .ok parsed → (parsed.toList.map fun m => envFragment m.1).Nodup →
      ∀ k x, env.lookup k = some x ↔ ∃ m ∈ parsed.toList,
        k = hostVar (envFragment fixtureName) (envFragment m.1) ∧ x = "127.0.0.1" ∨
        k = portVar (envFragment fixtureName) (envFragment m.1) ∧ x = ((u64? m.2).getD 0).toNat.repr

/-- The plugin and the runner agree exactly when no key asks for a port from `2 ^ 63`
on, which the plugin's integers hold and the runner's do not. -/
theorem portsAgree_iff (fromStr : String → Except String (BTreeMap JsonValue)) (fixtureName portsInput : String) :
    PortsAgree fromStr fixtureName portsInput ↔
      ∀ parsed, fromStr portsInput = .ok parsed → ∀ m ∈ parsed.toList, ∀ n, u64? m.2 = some n → n.toNat < 2 ^ 63 := by
  have hfits : (∀ m ∈ members fromStr portsInput, Fits m.2) ↔
      ∀ parsed, fromStr portsInput = .ok parsed → ∀ m ∈ parsed.toList, ∀ n, u64? m.2 = some n → n.toNat < 2 ^ 63 := by
    simp only [mem_members, fits_iff]
    constructor
    · intro h parsed hparsed m hm
      exact h m ⟨parsed, hparsed, hm⟩
    · rintro h m ⟨parsed, hparsed, hm⟩
      exact h parsed hparsed m hm
  rw [← hfits]
  constructor
  · rintro ⟨env, henv, -⟩
    by_contra hbad
    obtain ⟨e, he⟩ := portEnvFromOutputs_not_fits fixtureName hbad
    cases henv.symm.trans he
  · intro h
    obtain ⟨env, henv, hlookup⟩ := portEnvFromOutputs_ok fixtureName (wellFormed_outputs.2 h)
    refine ⟨env, henv, fun parsed hparsed hnodup k x => ?_⟩
    have hperm := members_perm hparsed
    have hnames : ((members fromStr portsInput).map fun m => envFragment m.1).Nodup :=
      (hperm.map _).nodup_iff.2 hnodup
    rw [hlookup, entries_outputs h, overlay_eq_some_iff (agree_portEntry hnames)]
    simp only [List.mem_map, exists_exists_and_eq_and, ← portOf_eq]
    constructor
    · rintro ⟨m, hm, hx⟩
      exact ⟨m, hperm.subset hm, (entryVars_portEntry (h m hm)).1 hx⟩
    · rintro ⟨m, hm, hx⟩
      have hm := hperm.symm.subset hm
      exact ⟨m, hm, (entryVars_portEntry (h m hm)).2 hx⟩

/-- The smallest port that the plugin takes and the runner rejects. -/
theorem ports_disagree : ¬ ∀ (fromStr : String → Except String (BTreeMap JsonValue)) (fixtureName portsInput : String),
    PortsAgree fromStr fixtureName portsInput := by
  intro hall
  let fromStr : String → Except String (BTreeMap JsonValue) := fun s =>
    if s = "\x7b\"main\":\"9223372036854775808\"\x7d" then
      .ok ((∅ : BTreeMap JsonValue).insert "main" (.string "9223372036854775808"))
    else .error "expected value at line 1 column 1"
  obtain ⟨env, henv, -⟩ := hall fromStr "dummy" "\x7b\"main\":\"9223372036854775808\"\x7d"
  have hlarge : ¬ Fits (.string "9223372036854775808") := by decide
  have hmember : ("main", .string "9223372036854775808") ∈ members fromStr "\x7b\"main\":\"9223372036854775808\"\x7d" :=
    mem_members.2 ⟨_, if_pos rfl, List.mem_singleton_self _⟩
  obtain ⟨e, he⟩ := portEnvFromOutputs_not_fits "dummy" fun h => hlarge (h _ hmember)
  cases henv.symm.trans he

end RulesSystemtest.Dummy
