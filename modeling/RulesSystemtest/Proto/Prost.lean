import RulesSystemtest.Library.Wire
import RulesSystemtest.Proto.Messages

/-! The derived `encode_to_vec` of the messages a fixture description is made of.
Fields are written in tag order; scalars at their default are omitted, set oneofs
and present messages always written, and a map writes one entry for each key, in
key order, omitting a default key or a default value inside the entry. Every
length and every 64-bit value fits the ten rounds of the varint loop. -/

namespace RulesSystemtest

open Library Library.Wire

def utf8 (s : String) : Bytes := s.toUTF8.data.toList

theorem utf8_injective : Function.Injective utf8 := by
  intro s t h
  refine String.toByteArray_inj.1 (ByteArray.ext (Array.toList_inj.1 h))

/-- Signed integers are written as the `u64` of the same bits, sign-extended. -/
def int64Bits (i : Int64) : ℕ := i.toUInt64.toNat

def int32Bits (i : Int32) : ℕ := i.toInt64.toUInt64.toNat

theorem int64Bits_injective : Function.Injective int64Bits := by
  intro i j h
  have hij : i.toUInt64 = j.toUInt64 := UInt64.toNat_inj.1 h
  exact congrArg Int64.ofUInt64 hij

theorem int32Bits_injective : Function.Injective int32Bits := by
  intro i j h
  have hij : i.toInt64 = j.toInt64 := int64Bits_injective h
  have := congrArg Int64.toInt hij
  simpa [Int32.toInt_inj] using this

/-! ### Encoders -/

def SchemaBlob.fields (b : SchemaBlob) : List Field :=
  lenField 1 (utf8 b.schemaId) ++ lenField 2 b.contents

def ValueKind.field : ValueKind → Field
  | .str s => ⟨1, .len (utf8 s)⟩
  | .data bytes => ⟨3, .len bytes⟩
  | .schemaBlob b => ⟨4, .len (encodeFields b.fields)⟩
  | .intValue i => ⟨5, .varint (int32Bits i)⟩

def Value.fields (v : Value) : List Field := (v.value.map ValueKind.field).toList

def UseScope.field : UseScope → Field
  | .unrestricted => ⟨1, .len (encodeFields [])⟩
  | .clientRestricted => ⟨2, .len (encodeFields [])⟩
  | .singleUse => ⟨3, .len (encodeFields [])⟩

def Sharing.fields (s : Sharing) : List Field :=
  (s.useScope.map UseScope.field).toList ++ varintField 4 (int64Bits s.maximumConcurrentConnections)

def Plugin.field : Plugin → Field
  | .binaryPath p => ⟨2, .len (utf8 p)⟩
  | .containerRef r => ⟨3, .len (utf8 r)⟩

/-- One entry of a `map<string, Value>`. The default of a `Value` is the unset oneof. -/
def mapEntryFields (key : String) (v : Value) : List Field :=
  lenField 1 (utf8 key) ++ messageField 2 (if v = ⟨none⟩ then none else some v.fields)

def mapFields (tag : ℕ) (m : BTreeMap Value) : List Field :=
  m.toList.map fun kv => ⟨tag, .len (encodeFields (mapEntryFields kv.1 kv.2))⟩

def FixtureDescription.fields (d : FixtureDescription) : List Field :=
  lenField 1 (utf8 d.implId) ++ (d.plugin.map Plugin.field).toList ++ mapFields 4 d.inputs ++
    repeatedField 5 (d.imageInputs.map utf8) ++ repeatedField 6 (d.fileInputs.map utf8) ++
    messageField 7 (d.sharing.map Sharing.fields) ++
    varintField 8 (int64Bits d.startupTimeoutSeconds) ++ lenField 9 (utf8 d.name)

def FixtureDescription.encodeToVec (d : FixtureDescription) : Bytes := encodeFields d.fields

/-! ### Each encoder is injective -/

theorem SchemaBlob.fields_injective : Function.Injective SchemaBlob.fields := by
  rintro ⟨i, x⟩ ⟨j, y⟩ h
  have h1 := congrArg (ofTag 1) h
  have h2 := congrArg (ofTag 2) h
  simp only [SchemaBlob.fields, ofTag_append, ofTag_lenField] at h1 h2
  have hi := utf8_injective (lenField_injective 1 (by simpa using h1))
  have hx := lenField_injective 2 (by simpa using h2)
  rw [hi, hx]

theorem ValueKind.field_injective : Function.Injective ValueKind.field := by
  intro a b h
  cases a <;> cases b <;> simp [ValueKind.field] at h ⊢
  case str.str => exact utf8_injective h
  case data.data => exact h
  case schemaBlob.schemaBlob => exact SchemaBlob.fields_injective (encodeFields_injective h)
  case intValue.intValue => exact int32Bits_injective h

theorem Value.fields_injective : Function.Injective Value.fields := by
  rintro ⟨a⟩ ⟨b⟩ h
  cases a <;> cases b <;> simp [Value.fields] at h ⊢
  exact ValueKind.field_injective h

theorem UseScope.field_injective : Function.Injective UseScope.field := by
  intro a b h
  cases a <;> cases b <;> simp [UseScope.field] at h ⊢

theorem UseScope.ofTag_field (u : Option UseScope) : ofTag 4 (u.map UseScope.field).toList = [] := by
  rcases u with _ | (_ | _ | _) <;> rfl

theorem Sharing.fields_injective : Function.Injective Sharing.fields := by
  rintro ⟨u, m⟩ ⟨v, n⟩ h
  have h4 := congrArg (ofTag 4) h
  simp only [Sharing.fields, ofTag_append, UseScope.ofTag_field, ofTag_varintField, if_true,
    List.nil_append] at h4
  have hm := int64Bits_injective (varintField_injective 4 h4)
  subst hm
  have hu := List.append_cancel_right h
  cases u <;> cases v <;> simp at hu ⊢
  exact UseScope.field_injective hu

theorem mapEntryFields_injective {k l : String} {v w : Value}
    (h : mapEntryFields k v = mapEntryFields l w) : k = l ∧ v = w := by
  have h1 := congrArg (ofTag 1) h
  have h2 := congrArg (ofTag 2) h
  simp only [mapEntryFields, ofTag_append, ofTag_lenField, ofTag_messageField] at h1 h2
  have hk := utf8_injective (lenField_injective 1 (by simpa using h1))
  have hv := messageField_injective 2 (by simpa using h2)
  refine ⟨hk, ?_⟩
  split at hv <;> split at hv
  · next hv0 hw0 => rw [hv0, hw0]
  · cases hv
  · cases hv
  · exact Value.fields_injective (Option.some.inj hv)

theorem mapFields_injective (tag : ℕ) : Function.Injective (mapFields tag) := by
  intro m n h
  have hinj : Function.Injective fun kv : String × Value =>
      (⟨tag, .len (encodeFields (mapEntryFields kv.1 kv.2))⟩ : Field) := by
    rintro ⟨k, v⟩ ⟨l, w⟩ hkv
    simp only [Field.mk.injEq, Payload.len.injEq, true_and] at hkv
    obtain ⟨rfl, rfl⟩ := mapEntryFields_injective (encodeFields_injective hkv)
    rfl
  exact Std.ExtTreeMap.toList_inj.1 (List.map_injective_iff.2 hinj h)

@[simp] theorem ofTag_mapFields (i j : ℕ) (m : BTreeMap Value) :
    ofTag i (mapFields j m) = if j = i then mapFields j m else [] := ofTag_map ..

theorem Plugin.field_injective : Function.Injective Plugin.field := by
  intro a b h
  cases a <;> cases b <;> simp [Plugin.field] at h ⊢ <;> exact utf8_injective h

/-- The group of a tag that no case of the plugin oneof uses. -/
theorem Plugin.ofTag_field {i : ℕ} (hi : i ≠ 2 ∧ i ≠ 3) (p : Option Plugin) :
    ofTag i (p.map Plugin.field).toList = [] := by
  rcases p with _ | (_ | _) <;> simp [Plugin.field, hi.1.symm, hi.2.symm]

/-- The two tags of the plugin oneof. -/
theorem Plugin.ofTag_field_self (p : Option Plugin) :
    ofTag 2 (p.map Plugin.field).toList ++ ofTag 3 (p.map Plugin.field).toList =
      (p.map Plugin.field).toList := by
  rcases p with _ | (_ | _) <;> rfl

theorem FixtureDescription.fields_injective : Function.Injective FixtureDescription.fields := by
  intro d e h
  have group : ∀ i, ofTag i d.fields = ofTag i e.fields := fun i => congrArg (ofTag i) h
  simp only [FixtureDescription.fields, ofTag_append, ofTag_lenField, ofTag_mapFields,
    ofTag_repeatedField, ofTag_messageField, ofTag_varintField] at group
  have outside := fun i (hi : i ≠ 2 ∧ i ≠ 3) => by simpa only [Plugin.ofTag_field hi] using group i
  have h2 := group 2; have h3 := group 3
  have h1 := outside 1 (by decide); have h4 := outside 4 (by decide)
  have h5 := outside 5 (by decide); have h6 := outside 6 (by decide)
  have h7 := outside 7 (by decide); have h8 := outside 8 (by decide)
  have h9 := outside 9 (by decide)
  simp at h1 h2 h3 h4 h5 h6 h7 h8 h9
  have himpl := utf8_injective (lenField_injective 1 h1)
  have hplugin : d.plugin = e.plugin := by
    have hp := congrArg₂ (· ++ ·) h2 h3
    simp only [Plugin.ofTag_field_self] at hp
    cases hd : d.plugin <;> cases he : e.plugin <;> simp [hd, he] at hp ⊢
    exact Plugin.field_injective hp
  have hinputs := mapFields_injective 4 h4
  have himages := List.map_injective_iff.2 utf8_injective (repeatedField_injective 5 h5)
  have hfiles := List.map_injective_iff.2 utf8_injective (repeatedField_injective 6 h6)
  have hsharing := Option.map_injective Sharing.fields_injective (messageField_injective 7 h7)
  have htimeout := int64Bits_injective (varintField_injective 8 h8)
  have hname := utf8_injective (lenField_injective 9 h9)
  cases d; cases e
  simp_all

/-- The encoding of a description determines it. -/
theorem FixtureDescription.encodeToVec_injective : Function.Injective FixtureDescription.encodeToVec :=
  fun _ _ h => FixtureDescription.fields_injective (encodeFields_injective h)

end RulesSystemtest
