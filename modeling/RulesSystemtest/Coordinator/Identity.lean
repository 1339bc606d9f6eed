import RulesSystemtest.Coordinator.History

/-! Fixture identity. Two descriptions have one canonical encoding exactly when they
are the same recipe, run by plugin binaries of the same digest. So far as the digest
tells apart what is hashed, fingerprints do the same. -/

namespace RulesSystemtest

open Library

/-- Everything in a description but its name and the path of its plugin. -/
structure SameRecipe (d e : FixtureDescription) : Prop where
  implId : d.implId = e.implId
  inputs : ∀ key : String, d.inputs[key]? = e.inputs[key]?
  imageInputs : d.imageInputs = e.imageInputs
  fileInputs : d.fileInputs = e.fileInputs
  sharing : d.sharing = e.sharing
  startupTimeoutSeconds : d.startupTimeoutSeconds = e.startupTimeoutSeconds

/-- The description that is encoded, for a plugin binary with this hash. -/
def FixtureDescription.identity (d : FixtureDescription) (hash : String) : FixtureDescription :=
  { d with name := "", plugin := some (.binaryPath hash) }

variable {H : Host} {files : FileSystem} {d e : FixtureDescription} {path : String} {binary : Bytes}

theorem identity_eq_iff {x y : String} : d.identity x = e.identity y ↔ x = y ∧ SameRecipe d e := by
  simp only [FixtureDescription.identity, FixtureDescription.mk.injEq, Option.some.injEq,
    Plugin.binaryPath.injEq, and_true]
  constructor
  · rintro ⟨himpl, hxy, hinputs, himages, hfiles, hsharing, htimeout⟩
    exact ⟨hxy, himpl, fun key => by rw [hinputs], himages, hfiles, hsharing, htimeout⟩
  · rintro ⟨hxy, h⟩
    exact ⟨h.implId, hxy, Std.ExtTreeMap.ext_getElem? fun {key} => h.inputs key, h.imageInputs,
      h.fileInputs, h.sharing, h.startupTimeoutSeconds⟩

/-- The encoding for a readable plugin binary. -/
theorem canonicalEncoding_eq_ok (hd : d.plugin = some (.binaryPath path)) (hf : files path = .ok binary) :
    canonicalEncoding H files d path = .ok (d.identity (hexEncode (H.sha256 binary))).encodeToVec := by
  simp [canonicalEncoding, hd, hashPluginBinary, hf, FixtureDescription.identity]

/-- Fixture identity is exact. -/
theorem canonicalEncoding_eq_iff {files₁ files₂ : FileSystem} {d₁ d₂ : FixtureDescription}
    {path₁ path₂ : String} {binary₁ binary₂ : Bytes}
    (hd₁ : d₁.plugin = some (.binaryPath path₁)) (hd₂ : d₂.plugin = some (.binaryPath path₂))
    (hf₁ : files₁ path₁ = .ok binary₁) (hf₂ : files₂ path₂ = .ok binary₂) :
    canonicalEncoding H files₁ d₁ path₁ = canonicalEncoding H files₂ d₂ path₂ ↔
      H.sha256 binary₁ = H.sha256 binary₂ ∧ SameRecipe d₁ d₂ := by
  rw [canonicalEncoding_eq_ok hd₁ hf₁, canonicalEncoding_eq_ok hd₂ hf₂, Except.ok.injEq,
    FixtureDescription.encodeToVec_injective.eq_iff, identity_eq_iff, hexEncode_injective.eq_iff]

/-- Neither the name nor the path of the plugin is part of the identity. -/
theorem canonicalEncoding_eq_iff_sample :
    canonicalEncoding sampleHost sampleFiles (sampleDesc "redis") "/plugin" =
      canonicalEncoding sampleHost (fun _ => .ok [])
        { sampleDesc "redis" with name := "store", plugin := some (.binaryPath "/sandbox/plugin") }
        "/sandbox/plugin" :=
  (canonicalEncoding_eq_iff rfl rfl rfl rfl).2 ⟨rfl, rfl, fun _ => rfl, rfl, rfl, rfl, rfl⟩

end RulesSystemtest
