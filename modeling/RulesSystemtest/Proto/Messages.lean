import Mathlib.Data.Finmap
import Std.Data.ExtTreeMap.Lemmas

/-! The protobuf messages that the coordinator and its plugins exchange, as the
generated Rust types have them. Fixed-width integers keep their width, a `oneof`
is an `Option` of its cases, and a `map` field is a `BTreeMap`, equal to another
when both hold the same entries. -/

namespace RulesSystemtest

abbrev Bytes := List UInt8

abbrev BTreeMap (V : Type) := Std.ExtTreeMap String V

abbrev HashMap (K V : Type) := Finmap fun _ : K => V

theorem HashMap.lookup_insert {K V : Type} [DecidableEq K] (m : HashMap K V) (k k' : K) (v : V) :
    Finmap.lookup k' (Finmap.insert k v m) = if k' = k then some v else m.lookup k' := by
  by_cases h : k' = k
  · subst h
    rw [if_pos rfl, Finmap.lookup_insert]
  · rw [if_neg h, Finmap.lookup_insert_of_ne _ h]

theorem HashMap.lookup_erase {K V : Type} [DecidableEq K] (m : HashMap K V) (k k' : K) :
    Finmap.lookup k' (Finmap.erase k m) = if k' = k then none else m.lookup k' := by
  by_cases h : k' = k
  · subst h
    rw [if_pos rfl, Finmap.lookup_erase]
  · rw [if_neg h, Finmap.lookup_erase_ne h]

theorem HashMap.lookup_union {K V : Type} [DecidableEq K] (m m' : HashMap K V) (k : K) :
    Finmap.lookup k (m ∪ m') = (m.lookup k).or (m'.lookup k) := by
  by_cases hk : k ∈ m
  · obtain ⟨x, hx⟩ := Finmap.mem_iff.1 hk
    rw [Finmap.lookup_union_left hk, hx, Option.some_or]
  · rw [Finmap.lookup_union_right hk, Finmap.lookup_eq_none.2 hk, Option.none_or]

/-! ### Common data model -/

structure SchemaBlob where
  schemaId : String
  contents : Bytes
  deriving DecidableEq

inductive ValueKind where
  | str (s : String)
  | data (bytes : Bytes)
  | schemaBlob (blob : SchemaBlob)
  | intValue (i : Int32)
  deriving DecidableEq

structure Value where
  value : Option ValueKind
  deriving DecidableEq

/-- Each case carries an `Empty` message. -/
inductive UseScope where
  | unrestricted
  | clientRestricted
  | singleUse
  deriving DecidableEq

structure Sharing where
  useScope : Option UseScope
  maximumConcurrentConnections : Int64
  deriving DecidableEq

inductive LeaseStatus where
  | unknown
  | pending
  | succeeded
  | failed
  deriving DecidableEq

/-- An enumeration travels as its number. -/
def LeaseStatus.toInt32 : LeaseStatus → Int32
  | .unknown => 0
  | .pending => 1
  | .succeeded => 2
  | .failed => 3

inductive Plugin where
  | binaryPath (path : String)
  | containerRef (ref : String)
  deriving DecidableEq

structure FixtureDescription where
  implId : String
  plugin : Option Plugin
  inputs : BTreeMap Value
  imageInputs : List String
  fileInputs : List String
  sharing : Option Sharing
  startupTimeoutSeconds : Int64
  name : String
  deriving DecidableEq

/-! ### Runner to coordinator -/

structure TakeLeaseRequest where
  fixture : Option FixtureDescription
  clientId : String
  owner : String
  ttlSeconds : Int64
  associatedTestsCount : UInt32
  deriving DecidableEq

structure TakeLeaseResponse where
  status : Int32
  leaseId : String
  outputs : BTreeMap Value
  messages : List String
  deriving DecidableEq

structure StatusResponse where
  status : Int32
  outputs : BTreeMap Value
  messages : List String
  deriving DecidableEq

/-! ### Coordinator to plugin -/

structure CreationMetadata where
  fixtureId : String
  clientId : String
  owner : String
  labels : BTreeMap String
  deriving DecidableEq

structure CreateRequest where
  implId : String
  inputs : BTreeMap Value
  metadata : Option CreationMetadata
  deriving DecidableEq

structure ResourceAmount where
  name : String
  unit : String
  quantity : Int64
  deriving DecidableEq

structure ResourcePool where
  poolId : String
  resources : List ResourceAmount
  deriving DecidableEq

inductive CreateProgressStatus where
  | unknown
  | enqueued
  | creating
  | running
  | succeeded
  | error
  deriving DecidableEq

/-- The generated accessor: a number outside the enumeration reads as its default. -/
def CreateProgressStatus.ofInt32 (i : Int32) : CreateProgressStatus :=
  if i = 1 then .enqueued
  else if i = 2 then .creating
  else if i = 3 then .running
  else if i = 4 then .succeeded
  else if i = 5 then .error
  else .unknown

structure FixtureElementStatusInfo where
  elementName : String
  status : Int32
  messages : List String
  deriving DecidableEq

structure FixtureResult where
  outputs : BTreeMap Value
  idleTimeoutSeconds : Int64
  instanceData : Bytes
  consumed : List ResourcePool
  deriving DecidableEq

structure CreateProgress where
  status : Int32
  elementInfos : List FixtureElementStatusInfo
  result : Option FixtureResult
  deriving DecidableEq

end RulesSystemtest
