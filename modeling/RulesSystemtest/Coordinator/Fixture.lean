import RulesSystemtest.Proto.Prost
import Mathlib.Data.Nat.Digits.Defs

/-! Fixtures: the fingerprint that identifies one, and the plugin binary it names.
The digest of the `sha2` crate is a parameter. Errors are `anyhow` chains, kept as
their one-line rendering. -/

namespace RulesSystemtest

open Library

/-- What a coordinator process is started with: its digest function and the
directory of its socket. -/
structure Host where
  sha256 : Bytes → Bytes
  instanceDir : String

/-- A readable file is its contents; reading another fails with the text of the
I/O error. -/
abbrev FileSystem := String → Except String Bytes

/-- `anyhow::Context`: the context comes before the error it explains. -/
def context (c e : String) : String := c ++ ": " ++ e

structure FixtureId where
  value : String
  deriving DecidableEq

structure FixtureFingerprint where
  value : String
  deriving DecidableEq

def hexByte (b : UInt8) : List Char := [Nat.digitChar (b.toNat / 16), Nat.digitChar (b.toNat % 16)]

def hexEncode (bytes : Bytes) : String := String.ofList (bytes.flatMap hexByte)

/-- Hex sha256 of the plugin binary's contents. -/
def hashPluginBinary (H : Host) (files : FileSystem) (path : String) : Except String String :=
  match files path with
  | .ok bytes => .ok (hexEncode (H.sha256 bytes))
  | .error e => .error (context ("reading plugin binary at " ++ path) e)

/-- The bytes of a fixture's identity: the description without its name, and with
the hash of the plugin binary in place of its path. -/
def canonicalEncoding (H : Host) (files : FileSystem) (desc : FixtureDescription)
    (pluginBinaryPath : String) : Except String Bytes :=
  let desc := { desc with name := "" }
  match desc.plugin with
  | some (.binaryPath _) =>
    match hashPluginBinary H files pluginBinaryPath with
    | .ok hash => .ok { desc with plugin := some (.binaryPath hash) }.encodeToVec
    | .error e => .error e
  | _ => .ok desc.encodeToVec

def FixtureFingerprint.compute (H : Host) (files : FileSystem) (desc : FixtureDescription)
    (pluginBinaryPath : String) : Except String FixtureFingerprint :=
  match canonicalEncoding H files desc pluginBinaryPath with
  | .ok encoded => .ok ⟨hexEncode (H.sha256 encoded)⟩
  | .error e => .error e

/-! ### The hexadecimal rendering is faithful -/

theorem digitChar_inj {m n : ℕ} (hm : m < 16) (hn : n < 16) (h : Nat.digitChar m = Nat.digitChar n) :
    m = n := by
  have key : ∀ i j : Fin 16, Nat.digitChar i = Nat.digitChar j → i = j := by decide
  exact congrArg Fin.val (key ⟨m, hm⟩ ⟨n, hn⟩ h)

theorem hexByte_injective : Function.Injective hexByte := by
  intro a b h
  simp only [hexByte, List.cons.injEq, and_true] at h
  have ha := a.toNat_lt
  have hb := b.toNat_lt
  have hhigh := digitChar_inj (by omega) (by omega) h.1
  have hlow := digitChar_inj (by omega) (by omega) h.2
  exact UInt8.toNat_inj.1 (by omega)

theorem hexEncode_injective : Function.Injective hexEncode := by
  intro a b h
  have hcode : SelfDelimiting hexByte := SelfDelimiting.of_length (n := 2) (fun _ => rfl) hexByte_injective
  exact hcode.flatMap_injective (fun _ => by simp [hexByte]) (String.ofList_injective h)

end RulesSystemtest
