import RulesSystemtest.Library.Json
import RulesSystemtest.Library.Runes
import RulesSystemtest.Proto.Prost
import RulesSystemtest.Runner.Env

/-! `json.Unmarshal` into a ports schema. The text is read as a value first, so that a
syntax error stores nothing; the value is then stored field by field. Keys match the
names of fields regardless of case, unknown keys are skipped, and `null` changes
nothing. The texts of the decoder's errors are those of its type errors. -/

namespace RulesSystemtest.Runner

open Library

/-! ### Scalars -/

/-- The two letters outside ASCII whose case folds into it. -/
def foldRune (c : Char) : Char :=
  if c = '\u017f' then 'S' else if c = '\u212a' then 'K' else c.toUpper

def matchesField (key : List Char) (field : String) : Bool :=
  key.map foldRune = field.toList.map foldRune

def kindOf : Json → String
  | .null => "null"
  | .bool _ => "bool"
  | .num _ => "number"
  | .str _ => "string"
  | .arr _ => "array"
  | .obj _ => "object"

def typeError (value field goType : String) : String :=
  "json: cannot unmarshal " ++ value ++ " into Go struct field " ++ field ++ " of type " ++ goType

/-- `strconv.ParseInt(s, 10, 64)` on a number literal. -/
def parseInt : List Char → Option Int64
  | '-' :: ds =>
    if ds ≠ [] ∧ ds.all Char.isDigit ∧ Nat.ofDigitChars 10 ds 0 ≤ 2 ^ 63 then
      some (Int64.ofInt (-(Nat.ofDigitChars 10 ds 0 : ℕ)))
    else none
  | ds =>
    if ds ≠ [] ∧ ds.all Char.isDigit ∧ Nat.ofDigitChars 10 ds 0 < 2 ^ 63 then
      some (Int64.ofNat (Nat.ofDigitChars 10 ds 0))
    else none

def storeString (field old : String) : Json → Except String String
  | .str s => .ok (String.ofList s)
  | .null => .ok old
  | v => .error (typeError (kindOf v) field "string")

def storeBool (field : String) (old : Bool) : Json → Except String Bool
  | .bool b => .ok b
  | .null => .ok old
  | v => .error (typeError (kindOf v) field "bool")

def storeInt (field : String) (old : Int64) : Json → Except String Int64
  | .num n =>
    match parseInt n.literal with
    | some i => .ok i
    | none => .error (typeError ("number " ++ String.ofList n.literal) field "int")
  | .null => .ok old
  | v => .error (typeError (kindOf v) field "int")

/-! ### The schema -/

def PortEntry.zero : PortEntry := ⟨"", "", false, "", 0⟩

def storeField (p : PortEntry) (member : List Char × Json) : Except String PortEntry :=
  if matchesField member.1 "name" then
    (storeString "portEntry.ports.name" p.name member.2).map fun s => { p with name := s }
  else if matchesField member.1 "protocol" then
    (storeString "portEntry.ports.protocol" p.protocol member.2).map fun s => { p with protocol := s }
  else if matchesField member.1 "tunnel" then
    (storeBool "portEntry.ports.tunnel" p.tunnel member.2).map fun b => { p with tunnel := b }
  else if matchesField member.1 "host" then
    (storeString "portEntry.ports.host" p.host member.2).map fun s => { p with host := s }
  else if matchesField member.1 "port" then
    (storeInt "portEntry.ports.port" p.port member.2).map fun i => { p with port := i }
  else .ok p

def storeEntry (old : PortEntry) : Json → Except String PortEntry
  | .obj members => members.foldlM storeField old
  | .null => .ok old
  | v => .error (typeError (kindOf v) "portsSchema.ports" "runner.portEntry")

/-- The elements are stored over those that the slice held before. -/
def storeEntries : List PortEntry → List Json → Except String (List PortEntry)
  | _, [] => .ok []
  | old, v :: vs => do
    let p ← storeEntry (old.headD .zero) v
    let ps ← storeEntries old.tail vs
    return p :: ps

def storePorts (old : List PortEntry) : Json → Except String (List PortEntry)
  | .arr vs => storeEntries old vs
  | .null => .ok []
  | v => .error (typeError (kindOf v) "portsSchema.ports" "[]runner.portEntry")

def storeSchema (schema : PortsSchema) (member : List Char × Json) : Except String PortsSchema :=
  if matchesField member.1 "ports" then (storePorts schema.ports member.2).map fun ps => ⟨ps⟩ else .ok schema

def unmarshal (contents : Bytes) : Except String PortsSchema :=
  match Json.read (runes contents) with
  | some (.obj members) => members.foldlM storeSchema ⟨[]⟩
  | some .null => .ok ⟨[]⟩
  | some v => .error ("json: cannot unmarshal " ++ kindOf v ++ " into Go value of type runner.portsSchema")
  | none => .error "json: invalid syntax"

/-- A key in upper case, white space, an escape and a null entry. -/
example : (unmarshal (utf8 "\x7b\"PORTS\": [\x7b\"name\": \"a\\u0041\", \"port\": 80\x7d, null]\x7d")) =
    .ok ⟨[⟨"aA", "", false, "", 80⟩, .zero]⟩ := by decide

end RulesSystemtest.Runner
