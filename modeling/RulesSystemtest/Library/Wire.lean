import RulesSystemtest.Library.SelfDelimiting
import Mathlib.Data.List.Basic

/-! The protobuf wire format: base-128 varints, field keys, and the two payload
kinds that strings, bytes, messages and integers use. A message is the list of
its wire fields; the byte stream determines that list, and the list determines
each field group through its tag. -/

namespace RulesSystemtest.Library.Wire

/-- The fuel bounds the rounds of the loop; one round per seven bits is enough. -/
def varintLoop : ℕ → ℕ → List UInt8
  | 0, _ => []
  | fuel + 1, n =>
    if n < 0x80 then [UInt8.ofNat n] else UInt8.ofNat (n % 0x80 + 0x80) :: varintLoop fuel (n / 0x80)

def encodeVarint (n : ℕ) : List UInt8 := varintLoop (n + 1) n

theorem varintLoop_ne_nil (fuel n : ℕ) : varintLoop (fuel + 1) n ≠ [] := by
  unfold varintLoop
  split <;> simp

private theorem byte_inj {m n : ℕ} (hm : m < 256) (hn : n < 256) (h : UInt8.ofNat m = UInt8.ofNat n) :
    m = n := by
  have hh := congrArg UInt8.toNat h
  simp only [UInt8.toNat_ofNat'] at hh
  omega

/-- The continuation bit tells both streams when the varint ends. -/
theorem varintLoop_selfDelimiting : ∀ (f g m n : ℕ) (s t : List UInt8), m < f → n < g →
    varintLoop f m ++ s = varintLoop g n ++ t → m = n ∧ s = t
  | f + 1, g + 1, m, n, s, t, hm, hn, hst => by
    unfold varintLoop at hst
    by_cases hm' : m < 0x80 <;> by_cases hn' : n < 0x80
    · rw [if_pos hm', if_pos hn'] at hst
      simp only [List.cons_append, List.nil_append, List.cons.injEq] at hst
      exact ⟨byte_inj (by omega) (by omega) hst.1, hst.2⟩
    · rw [if_pos hm', if_neg hn'] at hst
      simp only [List.cons_append, List.cons.injEq] at hst
      have := byte_inj (by omega) (by omega) hst.1
      omega
    · rw [if_neg hm', if_pos hn'] at hst
      simp only [List.cons_append, List.cons.injEq] at hst
      have := byte_inj (by omega) (by omega) hst.1
      omega
    · rw [if_neg hm', if_neg hn'] at hst
      simp only [List.cons_append, List.cons.injEq] at hst
      have hlow := byte_inj (by omega) (by omega) hst.1
      obtain ⟨hhigh, hrest⟩ := varintLoop_selfDelimiting f g (m / 0x80) (n / 0x80) s t
        (by omega) (by omega) hst.2
      exact ⟨by omega, hrest⟩

theorem encodeVarint_selfDelimiting : SelfDelimiting encodeVarint :=
  fun m n s t hst => varintLoop_selfDelimiting _ _ m n s t (by omega) (by omega) hst

/-! ### Fields -/

inductive Payload where
  | varint (n : ℕ)
  | len (bytes : List UInt8)
  deriving DecidableEq

structure Field where
  tag : ℕ
  payload : Payload
  deriving DecidableEq

def Payload.wireType : Payload → ℕ
  | .varint _ => 0
  | .len _ => 2

def Payload.encode : Payload → List UInt8
  | .varint n => encodeVarint n
  | .len bytes => encodeVarint bytes.length ++ bytes

def Field.key (f : Field) : ℕ := f.tag * 8 + f.payload.wireType

def Field.encode (f : Field) : List UInt8 := encodeVarint f.key ++ f.payload.encode

theorem Field.encode_selfDelimiting : SelfDelimiting Field.encode := by
  refine SelfDelimiting.dependent Field.key Field.payload Payload.encode encodeVarint_selfDelimiting ?_
  rintro ⟨i, p⟩ ⟨j, q⟩ s t hk hst
  -- the low three bits of the key fix the payload kind, the rest the tag
  cases p <;> cases q <;> simp only [Field.key, Payload.wireType] at hk
  case varint.varint m n =>
    obtain ⟨rfl, hrest⟩ := encodeVarint_selfDelimiting _ _ _ _ hst
    exact ⟨by rw [show i = j by omega], hrest⟩
  case len.len xs ys =>
    obtain ⟨rfl, hrest⟩ := encodeVarint_selfDelimiting.length_prefixed xs ys s t hst
    exact ⟨by rw [show i = j by omega], hrest⟩
  all_goals omega

theorem Field.encode_ne_nil (f : Field) : f.encode ≠ [] := by
  intro h
  exact varintLoop_ne_nil _ _ (List.append_eq_nil_iff.1 h).1

def encodeFields (fs : List Field) : List UInt8 := fs.flatMap Field.encode

theorem encodeFields_injective : Function.Injective encodeFields :=
  Field.encode_selfDelimiting.flatMap_injective Field.encode_ne_nil

/-! ### Field groups -/

/-- A scalar of length-delimited type: written unless empty. -/
def lenField (tag : ℕ) (bytes : List UInt8) : List Field :=
  if bytes = [] then [] else [⟨tag, .len bytes⟩]

/-- A scalar of varint type: written unless zero. -/
def varintField (tag : ℕ) (n : ℕ) : List Field :=
  if n = 0 then [] else [⟨tag, .varint n⟩]

/-- A submessage: written, as its own stream of fields, when present. -/
def messageField (tag : ℕ) (body : Option (List Field)) : List Field :=
  (body.map fun fs => ⟨tag, .len (encodeFields fs)⟩).toList

/-- One field for each element, the empty ones included. -/
def repeatedField (tag : ℕ) (xs : List (List UInt8)) : List Field :=
  xs.map fun bytes => ⟨tag, .len bytes⟩

/-- The group of a tag. -/
def ofTag (tag : ℕ) (fs : List Field) : List Field := fs.filter fun f => f.tag = tag

@[simp] theorem ofTag_nil (tag : ℕ) : ofTag tag [] = [] := rfl

@[simp] theorem ofTag_append (tag : ℕ) (fs gs : List Field) :
    ofTag tag (fs ++ gs) = ofTag tag fs ++ ofTag tag gs := List.filter_append ..

@[simp] theorem ofTag_cons (tag : ℕ) (f : Field) (fs : List Field) :
    ofTag tag (f :: fs) = if f.tag = tag then f :: ofTag tag fs else ofTag tag fs := by
  by_cases h : f.tag = tag <;> simp [ofTag, h]

@[simp] theorem ofTag_lenField (i j : ℕ) (bytes : List UInt8) :
    ofTag i (lenField j bytes) = if j = i then lenField j bytes else [] := by
  unfold lenField
  split <;> simp

@[simp] theorem ofTag_varintField (i j n : ℕ) :
    ofTag i (varintField j n) = if j = i then varintField j n else [] := by
  unfold varintField
  split <;> simp

@[simp] theorem ofTag_messageField (i j : ℕ) (body : Option (List Field)) :
    ofTag i (messageField j body) = if j = i then messageField j body else [] := by
  cases body <;> simp [messageField]

@[simp] theorem ofTag_map {α : Type*} (i j : ℕ) (f : α → Payload) (xs : List α) :
    ofTag i (xs.map fun x => ⟨j, f x⟩) = if j = i then xs.map (fun x => ⟨j, f x⟩) else [] := by
  induction xs with
  | nil => simp
  | cons x xs ih => rw [List.map_cons, ofTag_cons, ih]; split <;> rfl

@[simp] theorem ofTag_repeatedField (i j : ℕ) (xs : List (List UInt8)) :
    ofTag i (repeatedField j xs) = if j = i then repeatedField j xs else [] := ofTag_map ..

theorem lenField_injective (tag : ℕ) : Function.Injective (lenField tag) := by
  intro xs ys h
  unfold lenField at h
  split at h <;> split at h <;> simp_all

theorem varintField_injective (tag : ℕ) : Function.Injective (varintField tag) := by
  intro m n h
  unfold varintField at h
  split at h <;> split at h <;> simp_all

theorem messageField_injective (tag : ℕ) : Function.Injective (messageField tag) := by
  intro a b h
  cases a <;> cases b <;> simp [messageField] at h ⊢
  exact encodeFields_injective h

theorem repeatedField_injective (tag : ℕ) : Function.Injective (repeatedField tag) :=
  List.map_injective_iff.2 fun xs ys h => by simpa using h

end RulesSystemtest.Library.Wire
