import Mathlib.Data.List.Basic

/-! The characters of a byte string as a lenient UTF-8 decoder sees them: a byte that
starts no valid sequence is one replacement character. Encoded text decodes to itself. -/

namespace RulesSystemtest.Library

/-- Reads at most as many characters as the first argument says. -/
def decodeRunes : ℕ → List UInt8 → List Char
  | 0, _ => []
  | _, [] => []
  | n + 1, b :: bs =>
    match ByteArray.utf8DecodeChar? (b :: bs).toByteArray 0 with
    | some c => c :: decodeRunes n ((b :: bs).drop c.utf8Size)
    | none => '\ufffd' :: decodeRunes n bs

def runes (bs : List UInt8) : List Char := decodeRunes bs.length bs

theorem decodeRunes_encode (cs : List Char) {n : ℕ} (hn : (cs.flatMap String.utf8EncodeChar).length ≤ n) :
    decodeRunes n (cs.flatMap String.utf8EncodeChar) = cs := by
  induction cs generalizing n with
  | nil => cases n <;> rfl
  | cons c cs ih =>
    have hlen : (String.utf8EncodeChar c).length = c.utf8Size := String.length_utf8EncodeChar c
    have hpos := c.utf8Size_pos
    rw [List.flatMap_cons] at hn ⊢
    rw [List.length_append] at hn
    obtain ⟨b, bs, hbs⟩ : ∃ b bs, String.utf8EncodeChar c ++ cs.flatMap String.utf8EncodeChar = b :: bs := by
      refine List.exists_cons_of_ne_nil fun h => ?_
      have := congrArg List.length h
      rw [List.length_append] at this
      simp only [List.length_nil] at this
      omega
    obtain ⟨m, rfl⟩ : ∃ m, n = m + 1 := ⟨n - 1, by omega⟩
    have hdecode : ByteArray.utf8DecodeChar? (b :: bs).toByteArray 0 = some c := by
      rw [← hbs, List.toByteArray_append]
      exact ByteArray.utf8DecodeChar?_utf8EncodeChar_append
    have hdrop : (b :: bs).drop c.utf8Size = cs.flatMap String.utf8EncodeChar := by
      rw [← hbs, ← hlen, List.drop_left]
    rw [hbs, decodeRunes, hdecode]
    simp only [hdrop]
    rw [ih (by omega)]

theorem runes_encode (cs : List Char) : runes (cs.flatMap String.utf8EncodeChar) = cs :=
  decodeRunes_encode cs (Nat.le_refl _)

theorem toList_toUTF8 (s : String) : s.toUTF8.data.toList = s.toList.flatMap String.utf8EncodeChar := by
  change s.toByteArray.data.toList = _
  rw [← String.utf8Encode_toList, List.utf8Encode, List.data_toByteArray]

/-- A string decodes to its characters. -/
theorem runes_toUTF8 (s : String) : runes s.toUTF8.data.toList = s.toList := by
  rw [toList_toUTF8, runes_encode]

/-- A byte below 128 is no part of a longer sequence. -/
theorem toNat_of_mem_utf8EncodeChar {c : Char} {b : UInt8} (hb : b.toNat < 128) (h : b ∈ String.utf8EncodeChar c) :
    c.toNat = b.toNat := by
  have hval : c.toNat = c.val.toNat := rfl
  unfold String.utf8EncodeChar at h
  dsimp only at h
  split_ifs at h
  all_goals
    simp only [List.mem_cons, List.not_mem_nil, or_false, ← UInt8.toNat_inj, UInt8.toNat_ofNat'] at h
    omega

/-- Such a byte of a string stands for the character with its number. -/
theorem mem_of_mem_toUTF8 {s : String} {c : Char} (hc : c.toNat < 128)
    (h : UInt8.ofNat c.toNat ∈ s.toUTF8.data.toList) : c ∈ s.toList := by
  have hbyte : (UInt8.ofNat c.toNat).toNat = c.toNat := by
    rw [UInt8.toNat_ofNat']
    omega
  rw [toList_toUTF8, List.mem_flatMap] at h
  obtain ⟨d, hd, hmem⟩ := h
  have hnat := toNat_of_mem_utf8EncodeChar (by rwa [hbyte]) hmem
  rw [hbyte] at hnat
  rwa [← Char.toNat_inj.1 hnat]

end RulesSystemtest.Library
