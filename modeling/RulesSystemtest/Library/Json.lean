import Mathlib.Data.List.Basic
import Mathlib.Data.List.TakeWhile
import Mathlib.Data.Nat.Digits.Defs

/-! JSON texts: the values they denote, a printer without white space, and a reader for
all of the grammar. Numbers keep their literals, objects their members in order and with
repetitions. What is printed reads back as the same value. -/

namespace RulesSystemtest.Library.Json

/-! ### Numbers -/

def skipDigits (s : List Char) : List Char := s.dropWhile Char.isDigit

/-- One digit or more. -/
def digits1 : List Char → Option (List Char)
  | c :: s => if c.isDigit then some (skipDigits s) else none
  | [] => none

def minus? : List Char → List Char
  | '-' :: s => s
  | s => s

def integer : List Char → Option (List Char)
  | '0' :: s => some s
  | s => digits1 s

def fraction? : List Char → Option (List Char)
  | '.' :: s => digits1 s
  | s => some s

def sign? : List Char → List Char
  | '+' :: s | '-' :: s => s
  | s => s

def exponent? : List Char → Option (List Char)
  | 'e' :: s | 'E' :: s => digits1 (sign? s)
  | s => some s

/-- The literal is one number of the grammar. -/
def isNumber (s : List Char) : Bool := ((integer (minus? s)).bind fraction?).bind exponent? == some []

structure Number where
  literal : List Char
  valid : isNumber literal = true
  deriving DecidableEq

end RulesSystemtest.Library.Json

namespace RulesSystemtest.Library

inductive Json where
  | null
  | bool (b : Bool)
  | num (n : Json.Number)
  | str (s : List Char)
  | arr (elements : List Json)
  | obj (members : List (List Char × Json))

end RulesSystemtest.Library

namespace RulesSystemtest.Library.Json

/-! ### Printing -/

def hexDigit (n : ℕ) : Char := Nat.digitChar n

/-- Control characters, quotes and backslashes are escaped. -/
def escape (c : Char) : List Char :=
  if c = '"' then ['\\', '"']
  else if c = '\\' then ['\\', '\\']
  else if c = '\x08' then ['\\', 'b']
  else if c = '\t' then ['\\', 't']
  else if c = '\n' then ['\\', 'n']
  else if c = '\x0c' then ['\\', 'f']
  else if c = '\r' then ['\\', 'r']
  else if c.toNat < 0x20 then ['\\', 'u', '0', '0', hexDigit (c.toNat / 16), hexDigit (c.toNat % 16)]
  else [c]

def printString (s : List Char) : List Char := '"' :: (s.flatMap escape ++ ['"'])

mutual

def print : Json → List Char
  | .null => "null".toList
  | .bool true => "true".toList
  | .bool false => "false".toList
  | .num n => n.literal
  | .str s => printString s
  | .arr [] => "[]".toList
  | .arr (v :: vs) => '[' :: (print v ++ printElements vs)
  | .obj [] => "\x7b\x7d".toList
  | .obj ((k, v) :: ms) => '\x7b' :: (printString k ++ ':' :: (print v ++ printMembers ms))

/-- The elements after the first one, and the end of the array. -/
def printElements : List Json → List Char
  | [] => [']']
  | v :: vs => ',' :: (print v ++ printElements vs)

def printMembers : List (List Char × Json) → List Char
  | [] => ['\x7d']
  | (k, v) :: ms => ',' :: (printString k ++ ':' :: (print v ++ printMembers ms))

end

/-! ### Reading -/

def isSpace (c : Char) : Bool := c = ' ' || c = '\t' || c = '\n' || c = '\r'

def skipSpace (s : List Char) : List Char := s.dropWhile isSpace

def hexValue (c : Char) : Option ℕ :=
  if c.isDigit then some (c.toNat - '0'.toNat)
  else if 'a' ≤ c ∧ c ≤ 'f' then some (c.toNat - 'a'.toNat + 10)
  else if 'A' ≤ c ∧ c ≤ 'F' then some (c.toNat - 'A'.toNat + 10)
  else none

def unescape (c : Char) : Option Char :=
  if c = '"' ∨ c = '\\' ∨ c = '/' then some c
  else if c = 'b' then some '\x08'
  else if c = 't' then some '\t'
  else if c = 'n' then some '\n'
  else if c = 'f' then some '\x0c'
  else if c = 'r' then some '\r'
  else none

/-- What a string literal is made of: characters, and code units written in hex. -/
inductive Piece where
  | char (c : Char)
  | unit (u : ℕ)

def hex4 (a b c d : Char) : Option ℕ := do
  let a ← hexValue a
  let b ← hexValue b
  let c ← hexValue c
  let d ← hexValue d
  return ((a * 16 + b) * 16 + c) * 16 + d

/-- The pieces up to the closing quote, and what follows it. -/
def readPieces : List Char → Option (List Piece × List Char)
  | [] => none
  | '"' :: s => some ([], s)
  | '\\' :: 'u' :: a :: b :: c :: d :: s => do
    let u ← hex4 a b c d
    let (ps, s) ← readPieces s
    return (.unit u :: ps, s)
  | '\\' :: e :: s => do
    let c ← unescape e
    let (ps, s) ← readPieces s
    return (.char c :: ps, s)
  | c :: s =>
    if c.toNat < 0x20 then none
    else do
      let (ps, s) ← readPieces s
      return (.char c :: ps, s)

/-- Two surrogates in the right order are one character, and any other surrogate is
replaced. -/
def join : List Piece → List Char
  | [] => []
  | .char c :: ps => c :: join ps
  | .unit u :: .unit v :: ps =>
    if 0xd800 ≤ u ∧ u < 0xdc00 ∧ 0xdc00 ≤ v ∧ v < 0xe000 then
      Char.ofNat (0x10000 + (u - 0xd800) * 0x400 + (v - 0xdc00)) :: join ps
    else (if 0xd800 ≤ u ∧ u < 0xe000 then '\ufffd' else Char.ofNat u) :: join (.unit v :: ps)
  | .unit u :: ps => (if 0xd800 ≤ u ∧ u < 0xe000 then '\ufffd' else Char.ofNat u) :: join ps

def readString (s : List Char) : Option (List Char × List Char) :=
  (readPieces s).map fun r => (join r.1, r.2)

def inNumber (c : Char) : Bool := c.isDigit || c = '-' || c = '+' || c = '.' || c = 'e' || c = 'E'

def readNumber (s : List Char) : Option (Json × List Char) :=
  if h : isNumber (s.takeWhile inNumber) = true then some (.num ⟨_, h⟩, s.dropWhile inNumber) else none

mutual

/-- A value, after white space. The first argument bounds the calls; the length of the
text is enough twice over. -/
def readValue : ℕ → List Char → Option (Json × List Char)
  | 0, _ => none
  | n + 1, s =>
    match skipSpace s with
    | 'n' :: 'u' :: 'l' :: 'l' :: s => some (.null, s)
    | 't' :: 'r' :: 'u' :: 'e' :: s => some (.bool true, s)
    | 'f' :: 'a' :: 'l' :: 's' :: 'e' :: s => some (.bool false, s)
    | '"' :: s => (readString s).map fun r => (.str r.1, r.2)
    | '[' :: s =>
      match skipSpace s with
      | ']' :: s => some (.arr [], s)
      | s => (readElements n s).map fun r => (.arr r.1, r.2)
    | '\x7b' :: s =>
      match skipSpace s with
      | '\x7d' :: s => some (.obj [], s)
      | s => (readMembers n s).map fun r => (.obj r.1, r.2)
    | s => readNumber s

def readElements : ℕ → List Char → Option (List Json × List Char)
  | 0, _ => none
  | n + 1, s => do
    let (v, s) ← readValue n s
    match skipSpace s with
    | ']' :: s => some ([v], s)
    | ',' :: s => (readElements n s).map fun r => (v :: r.1, r.2)
    | _ => none

def readMembers : ℕ → List Char → Option (List (List Char × Json) × List Char)
  | 0, _ => none
  | n + 1, s =>
    match skipSpace s with
    | '"' :: s => do
      let (k, s) ← readString s
      match skipSpace s with
      | ':' :: s =>
        let (v, s) ← readValue n s
        match skipSpace s with
        | '\x7d' :: s => some ([(k, v)], s)
        | ',' :: s => (readMembers n s).map fun r => ((k, v) :: r.1, r.2)
        | _ => none
      | _ => none
    | _ => none

end

/-- The value of a whole text. -/
def read (s : List Char) : Option Json :=
  match readValue (2 * s.length + 1) s with
  | some (v, rest) => if skipSpace rest = [] then some v else none
  | none => none

/-! ### Strings read back -/

/-- The piece that a printed character reads back as. -/
def piece (c : Char) : Piece :=
  if c = '\x08' ∨ c = '\t' ∨ c = '\n' ∨ c = '\x0c' ∨ c = '\r' then .char c
  else if c.toNat < 0x20 then .unit c.toNat
  else .char c

theorem hex4_control {n : ℕ} (hn : n < 0x20) :
    hex4 '0' '0' (hexDigit (n / 16)) (hexDigit (n % 16)) = some n := by
  have key : ∀ i : Fin 0x20, hex4 '0' '0' (hexDigit (i / 16)) (hexDigit (i % 16)) = some i.val := by decide
  exact key ⟨n, hn⟩

theorem readPieces_plain {c : Char} (hquote : c ≠ '"') (hback : c ≠ '\\') (hc : ¬ c.toNat < 0x20)
    (s : List Char) : readPieces (c :: s) = (readPieces s).map fun r => (.char c :: r.1, r.2) := by
  rw [readPieces.eq_def]
  split
  · simp_all
  · simp_all
  · simp_all
  · simp_all
  · next heq =>
    obtain ⟨rfl, rfl⟩ := List.cons.inj heq
    rw [if_neg hc]
    cases readPieces s <;> rfl

theorem readPieces_escape (c : Char) (s : List Char) :
    readPieces (escape c ++ s) = (readPieces s).map fun r => (piece c :: r.1, r.2) := by
  have hbind : ∀ p : Piece, ((readPieces s).bind fun r => some (p :: r.1, r.2)) =
      (readPieces s).map fun r => (p :: r.1, r.2) := fun p => by
    cases readPieces s <;> rfl
  by_cases hquote : c = '"'
  · subst hquote
    exact hbind _
  by_cases hback : c = '\\'
  · subst hback
    exact hbind _
  by_cases hshort : c = '\x08' ∨ c = '\t' ∨ c = '\n' ∨ c = '\x0c' ∨ c = '\r'
  · rcases hshort with rfl | rfl | rfl | rfl | rfl <;> exact hbind _
  have hpiece : piece c = if c.toNat < 0x20 then .unit c.toNat else .char c := if_neg hshort
  simp only [not_or] at hshort
  obtain ⟨hb, ht, hn, hf, hr⟩ := hshort
  simp only [escape, hquote, hback, hb, ht, hn, hf, hr, if_false]
  rw [hpiece]
  by_cases hc : c.toNat < 0x20
  · simp only [hc, if_true, List.cons_append, List.nil_append, readPieces, hex4_control hc]
    exact hbind _
  · simp only [hc, if_false, List.cons_append, List.nil_append, readPieces_plain hquote hback hc]

theorem join_piece (c : Char) (ps : List Piece) : join (piece c :: ps) = c :: join ps := by
  unfold piece
  split
  · rfl
  · split
    · next hc =>
      have hchar : (if 0xd800 ≤ c.toNat ∧ c.toNat < 0xe000 then '\ufffd' else Char.ofNat c.toNat) = c := by
        rw [if_neg (by omega), Char.ofNat_toNat]
      cases ps with
      | nil => simp only [join, hchar]
      | cons p ps =>
        cases p with
        | char d => simp only [join, hchar]
        | unit v => rw [join, if_neg (by omega), hchar]
    · rfl

theorem readString_print (s rest : List Char) :
    readString (s.flatMap escape ++ '"' :: rest) = some (s, rest) := by
  have hpieces : readPieces (s.flatMap escape ++ '"' :: rest) = some (s.map piece, rest) := by
    induction s with
    | nil => simp [readPieces]
    | cons c s ih => rw [List.flatMap_cons, List.append_assoc, readPieces_escape, ih]; rfl
  have hjoin : join (s.map piece) = s := by
    clear hpieces
    induction s with
    | nil => rfl
    | cons c s ih => rw [List.map_cons, join_piece, ih]
  rw [readString, hpieces, Option.map_some, hjoin]

/-! ### Numbers read back -/

/-- `s` goes on as `r` after some characters of a number. -/
def Passes (s r : List Char) : Prop := ∃ p, s = p ++ r ∧ ∀ c ∈ p, inNumber c = true

theorem Passes.refl (s : List Char) : Passes s s := ⟨[], rfl, by simp⟩

theorem Passes.cons {c : Char} {s r : List Char} (hc : inNumber c = true) (h : Passes s r) : Passes (c :: s) r := by
  obtain ⟨p, rfl, hp⟩ := h
  exact ⟨c :: p, rfl, by simpa [hc] using hp⟩

theorem Passes.trans {s t r : List Char} (h : Passes s t) (h' : Passes t r) : Passes s r := by
  obtain ⟨p, rfl, hp⟩ := h
  obtain ⟨q, rfl, hq⟩ := h'
  refine ⟨p ++ q, by rw [List.append_assoc], fun c hc => ?_⟩
  rcases List.mem_append.1 hc with hc | hc
  · exact hp c hc
  · exact hq c hc

theorem inNumber_digit {c : Char} (hc : c.isDigit = true) : inNumber c = true := by
  simp [inNumber, hc]

theorem passes_skipDigits (s : List Char) : Passes s (skipDigits s) := by
  refine ⟨s.takeWhile Char.isDigit, (List.takeWhile_append_dropWhile).symm, fun c hc => ?_⟩
  exact inNumber_digit (List.mem_takeWhile_imp hc)

theorem passes_digits1 {s r : List Char} (h : digits1 s = some r) : Passes s r := by
  cases s with
  | nil => cases h
  | cons c s =>
    rw [digits1] at h
    split at h
    · next hc =>
      obtain rfl := Option.some.inj h
      exact (passes_skipDigits s).cons (inNumber_digit hc)
    · cases h

theorem passes_minus? (s : List Char) : Passes s (minus? s) := by
  unfold minus?
  split
  · exact (Passes.refl _).cons (by decide)
  · exact Passes.refl _

theorem passes_integer {s r : List Char} (h : integer s = some r) : Passes s r := by
  unfold integer at h
  split at h
  · obtain rfl := Option.some.inj h
    exact (Passes.refl _).cons (by decide)
  · exact passes_digits1 h

theorem passes_fraction? {s r : List Char} (h : fraction? s = some r) : Passes s r := by
  unfold fraction? at h
  split at h
  · exact (passes_digits1 h).cons (by decide)
  · obtain rfl := Option.some.inj h
    exact Passes.refl _

theorem passes_sign? (s : List Char) : Passes s (sign? s) := by
  unfold sign?
  split
  · exact (Passes.refl _).cons (by decide)
  · exact (Passes.refl _).cons (by decide)
  · exact Passes.refl _

theorem passes_exponent? {s r : List Char} (h : exponent? s = some r) : Passes s r := by
  unfold exponent? at h
  split at h
  · exact ((passes_sign? _).trans (passes_digits1 h)).cons (by decide)
  · exact ((passes_sign? _).trans (passes_digits1 h)).cons (by decide)
  · obtain rfl := Option.some.inj h
    exact Passes.refl _

/-- A number literal is not empty, and nothing in it ends a number. -/
theorem Number.chars (n : Number) : n.literal ≠ [] ∧ ∀ c ∈ n.literal, inNumber c = true := by
  obtain ⟨literal, valid⟩ := n
  rw [isNumber, beq_iff_eq, Option.bind_eq_some_iff] at valid
  obtain ⟨t, ht, hexp⟩ := valid
  obtain ⟨r, hr, hfrac⟩ := Option.bind_eq_some_iff.1 ht
  constructor
  · rintro rfl
    cases hr
  · obtain ⟨p, hp, hall⟩ := (passes_minus? literal).trans <| (passes_integer hr).trans <|
      (passes_fraction? hfrac).trans (passes_exponent? hexp)
    rw [List.append_nil] at hp
    exact hp ▸ hall

/-- What follows a value does not go on with a number. -/
def Ends (rest : List Char) : Prop := ∀ c ∈ rest.head?, inNumber c = false

theorem readNumber_literal (n : Number) {rest : List Char} (h : Ends rest) :
    readNumber (n.literal ++ rest) = some (.num n, rest) := by
  have htake : (n.literal ++ rest).takeWhile inNumber = n.literal := by
    rw [List.takeWhile_append_of_pos n.chars.2]
    cases rest with
    | nil => simp
    | cons c rest => simp [h c rfl]
  have hdrop : (n.literal ++ rest).dropWhile inNumber = rest := by
    rw [List.dropWhile_append_of_pos n.chars.2]
    cases rest with
    | nil => rfl
    | cons c rest => simp [h c rfl]
  unfold readNumber
  rw [dif_pos (by rw [htake]; exact n.valid)]
  simp only [htake, hdrop]

/-! ### Natural numbers -/

theorem toDigits_head {n : ℕ} (hn : 0 < n) {c : Char} {s : List Char} (h : Nat.toDigits 10 n = c :: s) : c ≠ '0' := by
  induction n using Nat.strong_induction_on generalizing s with
  | _ n ih =>
    by_cases hlt : n < 10
    · rw [Nat.toDigits_of_lt_base hlt, List.cons.injEq] at h
      rw [← h.1, Ne, Nat.digitChar_eq_zero]
      omega
    · rw [Nat.toDigits_of_base_le (by decide) (by omega)] at h
      cases hq : Nat.toDigits 10 (n / 10) with
      | nil => exact absurd hq Nat.toDigits_ne_nil
      | cons d t =>
        rw [hq, List.cons_append, List.cons.injEq] at h
        obtain ⟨rfl, -⟩ := h
        exact ih (n / 10) (by omega) (by omega) hq

theorem isNumber_toDigits (n : ℕ) : isNumber (Nat.toDigits 10 n) = true := by
  rcases Nat.eq_zero_or_pos n with rfl | hn
  · rw [Nat.toDigits_zero]
    rfl
  · have hdigits : ∀ c ∈ Nat.toDigits 10 n, c.isDigit = true :=
      fun c hc => Nat.isDigit_of_mem_toDigits (by decide) (by decide) hc
    cases hl : Nat.toDigits 10 n with
    | nil => exact absurd hl Nat.toDigits_ne_nil
    | cons c s =>
      rw [hl] at hdigits
      have hzero := toDigits_head hn hl
      have hminus : c ≠ '-' := by
        rintro rfl
        exact absurd (hdigits '-' List.mem_cons_self) (by decide)
      have hskip : skipDigits s = [] :=
        List.dropWhile_eq_nil_iff.2 fun d hd => hdigits d (List.mem_cons_of_mem _ hd)
      have hfirst : minus? (c :: s) = c :: s := by
        unfold minus?
        split
        · next heq => exact absurd (List.cons.inj heq).1 hminus
        · rfl
      have hint : integer (c :: s) = some [] := by
        unfold integer
        split
        · next heq => exact absurd (List.cons.inj heq).1 hzero
        · rw [digits1, if_pos (hdigits c List.mem_cons_self), hskip]
      rw [isNumber, hfirst, hint]
      rfl

/-- A natural number in decimal. -/
def Number.ofNat (n : ℕ) : Number := ⟨Nat.toDigits 10 n, isNumber_toDigits n⟩

/-! ### Values read back -/

theorem ends_cons {c : Char} {s : List Char} (hc : inNumber c = false) : Ends (c :: s) := by
  rintro d ⟨⟩
  exact hc

theorem skipSpace_cons {c : Char} (hc : isSpace c = false) (s : List Char) : skipSpace (c :: s) = c :: s := by
  simp [skipSpace, hc]

/-- The characters that a printed value can start with. -/
def starts : List Char := "ntf\"[\x7b-0123456789+.eE".toList

theorem mem_starts_of_inNumber {c : Char} (hc : inNumber c = true) : c ∈ starts := by
  have hdigit : ∀ n : Fin 128, (Char.ofNat n).isDigit = true → Char.ofNat n ∈ starts := by decide +kernel
  simp only [inNumber, Bool.or_eq_true, decide_eq_true_eq] at hc
  rcases hc with ((((hc | rfl) | rfl) | rfl) | rfl) | rfl
  · have hlt : c.toNat < 128 := by
      have h9 : c.val.toNat ≤ 57 := by
        simp only [Char.isDigit, Bool.and_eq_true, decide_eq_true_eq] at hc
        exact hc.2
      exact Nat.lt_of_le_of_lt h9 (by decide)
    simpa using hdigit ⟨c.toNat, hlt⟩ (by simpa using hc)
  all_goals decide

theorem print_head (v : Json) : ∃ c ∈ starts, ∃ s, print v = c :: s := by
  cases v with
  | null => exact ⟨'n', by decide, _, rfl⟩
  | bool b => cases b <;> exact ⟨_, by decide, _, rfl⟩
  | num n =>
    obtain ⟨hne, hall⟩ := n.chars
    obtain ⟨c, s, hl⟩ := List.exists_cons_of_ne_nil hne
    exact ⟨c, mem_starts_of_inNumber (hall c (by simp [hl])), s, hl⟩
  | str s => exact ⟨'"', by decide, _, rfl⟩
  | arr vs => cases vs <;> exact ⟨'[', by decide, _, rfl⟩
  | obj ms => rcases ms with - | ⟨⟨k, v⟩, ms⟩ <;> exact ⟨'\x7b', by decide, _, rfl⟩

theorem not_space_of_starts {c : Char} (hc : c ∈ starts) : isSpace c = false ∧ c ≠ ']' := by
  have hall : starts.all (fun c => !isSpace c && c != ']') = true := by decide
  simpa using List.all_eq_true.1 hall c hc

theorem skipSpace_print (v : Json) (rest : List Char) : skipSpace (print v ++ rest) = print v ++ rest := by
  obtain ⟨c, hc, s, hs⟩ := print_head v
  rw [hs, List.cons_append, skipSpace_cons (not_space_of_starts hc).1]

/-- What this much fuel is enough to read. The calls of the reader are with one unit
less, so the induction is on the fuel. -/
structure ReadsBack (n : ℕ) : Prop where
  value : ∀ v rest, 2 * (print v).length ≤ n → Ends rest → readValue n (print v ++ rest) = some (v, rest)
  elements : ∀ v vs rest, 2 * (print v ++ printElements vs).length ≤ n →
    readElements n (print v ++ (printElements vs ++ rest)) = some (v :: vs, rest)
  members : ∀ k v ms rest, 2 * (printString k ++ ':' :: (print v ++ printMembers ms)).length ≤ n →
    readMembers n (printString k ++ ':' :: (print v ++ (printMembers ms ++ rest))) = some ((k, v) :: ms, rest)

theorem readValue_num {n : ℕ} (m : Number) {rest : List Char} (hr : Ends rest) :
    readValue (n + 1) (m.literal ++ rest) = some (.num m, rest) := by
  have hskip := skipSpace_print (.num m) rest
  have hread := readNumber_literal m hr
  obtain ⟨hne, hall⟩ := m.chars
  obtain ⟨c, s, hs⟩ := List.exists_cons_of_ne_nil hne
  have hc : inNumber c = true := hall c (by simp [hs])
  rw [print, hs, List.cons_append] at hskip
  rw [hs, List.cons_append] at hread ⊢
  rw [readValue, hskip]
  split
  case h_7 => exact hread
  all_goals
    next heq =>
      obtain ⟨rfl, -⟩ := List.cons.inj heq
      exact absurd hc (by decide)

theorem readValue_arr {n : ℕ} (hn : ReadsBack n) (v : Json) (vs : List Json) (rest : List Char)
    (hlen : 2 * (print v ++ printElements vs).length ≤ n) :
    readValue (n + 1) ('[' :: (print v ++ (printElements vs ++ rest))) = some (.arr (v :: vs), rest) := by
  obtain ⟨c, hc, s, hs⟩ := print_head v
  have hskip := skipSpace_print v (printElements vs ++ rest)
  have hread := hn.elements v vs rest hlen
  rw [hs, List.cons_append] at hskip hread ⊢
  rw [readValue, skipSpace_cons (by decide)]
  simp only
  rw [hskip]
  split
  · next heq =>
    obtain ⟨rfl, -⟩ := List.cons.inj heq
    exact absurd rfl (not_space_of_starts hc).2
  · rw [hread]
    rfl

theorem readValue_members {n : ℕ} {s t : List Char} (hs : skipSpace s = '"' :: t) :
    readValue (n + 1) ('\x7b' :: s) = (readMembers n ('"' :: t)).map fun r => (.obj r.1, r.2) := by
  rw [readValue, skipSpace_cons (by decide)]
  simp only
  rw [hs]
  rfl

theorem readsBack_value {n : ℕ} (hn : ReadsBack n) (v : Json) (rest : List Char)
    (hlen : 2 * (print v).length ≤ n + 1) (hr : Ends rest) :
    readValue (n + 1) (print v ++ rest) = some (v, rest) := by
  cases v with
  | null => rfl
  | bool b => cases b <;> rfl
  | num m => exact readValue_num m hr
  | str s =>
    have hread := readString_print s rest
    rw [print, printString, List.cons_append, List.append_assoc, List.singleton_append, readValue,
      skipSpace_cons (by decide)]
    simp only [hread, Option.map_some]
  | arr vs =>
    cases vs with
    | nil => rfl
    | cons v vs =>
      rw [print, List.length_cons] at hlen
      rw [print, List.cons_append, List.append_assoc]
      exact readValue_arr hn v vs rest (by omega)
  | obj ms =>
    cases ms with
    | nil => rfl
    | cons m ms =>
      obtain ⟨k, v⟩ := m
      rw [print, List.length_cons] at hlen
      have hread := hn.members k v ms rest (by omega)
      rw [print]
      simp only [List.cons_append, List.append_assoc]
      rw [printString, List.cons_append] at hread ⊢
      rw [readValue_members (skipSpace_cons (by decide) _), hread, Option.map_some]

theorem readsBack_elements {n : ℕ} (hn : ReadsBack n) (v : Json) (vs : List Json) (rest : List Char)
    (hlen : 2 * (print v ++ printElements vs).length ≤ n + 1) :
    readElements (n + 1) (print v ++ (printElements vs ++ rest)) = some (v :: vs, rest) := by
  rw [List.length_append] at hlen
  cases vs with
  | nil =>
    have hlast : (printElements []).length = 1 := rfl
    have hread := hn.value v (']' :: rest) (by omega) (ends_cons (by decide))
    rw [printElements, List.singleton_append, readElements, hread]
    simp only [Option.bind_eq_bind, Option.bind_some]
    rw [skipSpace_cons (by decide)]
    rfl
  | cons v' vs =>
    rw [printElements, List.length_cons] at hlen
    have hread := hn.value v (',' :: (print v' ++ (printElements vs ++ rest))) (by omega) (ends_cons (by decide))
    have hmore := hn.elements v' vs rest (by omega)
    rw [printElements, List.cons_append, List.append_assoc, readElements, hread]
    simp only [Option.bind_eq_bind, Option.bind_some]
    rw [skipSpace_cons (by decide)]
    simp only [hmore, Option.map_some]

theorem readsBack_members {n : ℕ} (hn : ReadsBack n) (k : List Char) (v : Json) (ms : List (List Char × Json))
    (rest : List Char) (hlen : 2 * (printString k ++ ':' :: (print v ++ printMembers ms)).length ≤ n + 1) :
    readMembers (n + 1) (printString k ++ ':' :: (print v ++ (printMembers ms ++ rest))) =
      some ((k, v) :: ms, rest) := by
  rw [List.length_append, List.length_cons, List.length_append] at hlen
  have hkey := readString_print k (':' :: (print v ++ (printMembers ms ++ rest)))
  rw [printString, List.cons_append, List.append_assoc, List.singleton_append, readMembers,
    skipSpace_cons (by decide)]
  simp only [hkey, Option.bind_eq_bind, Option.bind_some]
  rw [skipSpace_cons (by decide)]
  simp only
  cases ms with
  | nil =>
    have hread := hn.value v ('\x7d' :: rest) (by omega) (ends_cons (by decide))
    rw [printMembers, List.singleton_append, hread]
    simp only [Option.bind_some]
    rw [skipSpace_cons (by decide)]
    rfl
  | cons m ms =>
    obtain ⟨k', v'⟩ := m
    rw [printMembers, List.length_cons] at hlen
    have hread := hn.value v (',' :: (printString k' ++ ':' :: (print v' ++ (printMembers ms ++ rest))))
      (by omega) (ends_cons (by decide))
    have hmore := hn.members k' v' ms rest (by omega)
    simp only [printMembers, List.cons_append, List.append_assoc]
    rw [hread]
    simp only [Option.bind_some]
    rw [skipSpace_cons (by decide)]
    simp only [hmore, Option.map_some]

theorem readsBack (n : ℕ) : ReadsBack n := by
  induction n with
  | zero =>
    have hpos : ∀ v : Json, 0 < (print v).length := fun v => by
      obtain ⟨c, -, s, hs⟩ := print_head v
      simp [hs]
    constructor
    · intro v rest hlen
      have := hpos v
      omega
    · intro v vs rest hlen
      have := hpos v
      rw [List.length_append] at hlen
      omega
    · intro k v ms rest hlen
      have := hpos v
      simp only [List.length_append, List.length_cons] at hlen
      omega
  | succ n ih => exact ⟨readsBack_value ih, readsBack_elements ih, readsBack_members ih⟩

/-- What is printed reads back as the same value. -/
theorem read_print (v : Json) : read (print v) = some v := by
  have hread := (readsBack (2 * (print v).length + 1)).value v [] (by omega) (by rintro c ⟨⟩)
  rw [List.append_nil] at hread
  rw [read, hread]
  rfl
end RulesSystemtest.Library.Json
