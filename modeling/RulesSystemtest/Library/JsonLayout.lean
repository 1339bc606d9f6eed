import RulesSystemtest.Library.Json

/-! JSON texts with white space between their tokens. The reader takes any of them for
the value that they spell, and so it does what a printer writes that puts each element
and each member on a line of its own. -/

namespace RulesSystemtest.Library.Json

/-! ### Spellings -/

def Blank (s : List Char) : Prop := ∀ c ∈ s, isSpace c = true

instance (s : List Char) : Decidable (Blank s) := List.decidableBAll _ s

mutual

/-- The text spells the value, from its first character to its last. -/
inductive Spells : Json → List Char → Prop where
  | null : Spells .null "null".toList
  | bool (b : Bool) : Spells (.bool b) (print (.bool b))
  | num (n : Number) : Spells (.num n) n.literal
  | str (s : List Char) : Spells (.str s) (printString s)
  | noElements {ws : List Char} (hws : Blank ws) : Spells (.arr []) ('[' :: (ws ++ [']']))
  | arr {v : Json} {vs : List Json} {s : List Char} (h : SpellsElements (v :: vs) s) :
      Spells (.arr (v :: vs)) ('[' :: s)
  | noMembers {ws : List Char} (hws : Blank ws) : Spells (.obj []) ('\x7b' :: (ws ++ ['\x7d']))
  | obj {m : List Char × Json} {ms : List (List Char × Json)} {s : List Char} (h : SpellsMembers (m :: ms) s) :
      Spells (.obj (m :: ms)) ('\x7b' :: s)

/-- The elements of an array, with the end of it. -/
inductive SpellsElements : List Json → List Char → Prop where
  | cons {v : Json} {vs : List Json} {s t ws ws' : List Char} (hws : Blank ws) (hv : Spells v s) (hws' : Blank ws')
      (hvs : SpellsMoreElements vs t) : SpellsElements (v :: vs) (ws ++ (s ++ (ws' ++ t)))

/-- What follows an element. -/
inductive SpellsMoreElements : List Json → List Char → Prop where
  | close : SpellsMoreElements [] [']']
  | more {vs : List Json} {t : List Char} (hvs : SpellsElements vs t) : SpellsMoreElements vs (',' :: t)

inductive SpellsMembers : List (List Char × Json) → List Char → Prop where
  | cons {k : List Char} {v : Json} {ms : List (List Char × Json)} {s t ws ws' ws'' ws₃ : List Char} (hws : Blank ws)
      (hws' : Blank ws') (hws'' : Blank ws'') (hv : Spells v s) (hws₃ : Blank ws₃) (hms : SpellsMoreMembers ms t) :
      SpellsMembers ((k, v) :: ms) (ws ++ (printString k ++ (ws' ++ ':' :: (ws'' ++ (s ++ (ws₃ ++ t))))))

inductive SpellsMoreMembers : List (List Char × Json) → List Char → Prop where
  | close : SpellsMoreMembers [] ['\x7d']
  | more {ms : List (List Char × Json)} {t : List Char} (hms : SpellsMembers ms t) : SpellsMoreMembers ms (',' :: t)

end

/-! ### White space -/

variable {ws s rest : List Char} {c : Char} {v : Json} {n : ℕ}

theorem skipSpace_blank (hws : Blank ws) (s : List Char) : skipSpace (ws ++ s) = skipSpace s :=
  List.dropWhile_append_of_pos hws

theorem skipSpace_to (hws : Blank ws) (hc : isSpace c = false) (s : List Char) :
    skipSpace (ws ++ c :: s) = c :: s := by
  rw [skipSpace_blank hws, skipSpace_cons hc]

theorem skipSpace_skipSpace (s : List Char) : skipSpace (skipSpace s) = skipSpace s := by
  induction s with
  | nil => rfl
  | cons c s ih =>
    cases hc : isSpace c with
    | true =>
      have hskip : skipSpace (c :: s) = skipSpace s := List.dropWhile_cons_of_pos hc
      rw [hskip, ih]
    | false => rw [skipSpace_cons hc, skipSpace_cons hc]

theorem readValue_blank (hws : Blank ws) (s : List Char) : readValue n (ws ++ s) = readValue n s := by
  cases n with
  | zero => rfl
  | succ n => rw [readValue, readValue, skipSpace_blank hws]

theorem readElements_skip (s : List Char) : readElements n (skipSpace s) = readElements n s := by
  have hvalue : ∀ n, readValue n (skipSpace s) = readValue n s := by
    rintro (- | n)
    · rfl
    · rw [readValue, readValue, skipSpace_skipSpace]
  cases n with
  | zero => rfl
  | succ n => rw [readElements, readElements, hvalue]

theorem readMembers_skip (s : List Char) : readMembers n (skipSpace s) = readMembers n s := by
  cases n with
  | zero => rfl
  | succ n => rw [readMembers, readMembers, skipSpace_skipSpace]

theorem ends_blank (hws : Blank ws) (hc : inNumber c = false) (s : List Char) : Ends (ws ++ c :: s) := by
  cases ws with
  | nil => exact ends_cons hc
  | cons b ws =>
    have hspace := hws b List.mem_cons_self
    simp only [isSpace, Bool.or_eq_true, decide_eq_true_eq] at hspace
    rcases hspace with ((rfl | rfl) | rfl) | rfl <;> exact ends_cons (by decide)

theorem spells_head (h : Spells v s) : ∃ c ∈ starts, ∃ t, s = c :: t := by
  cases h with
  | null => exact ⟨'n', by decide, _, rfl⟩
  | bool b => exact print_head (.bool b)
  | num n => exact print_head (.num n)
  | str s => exact ⟨'"', by decide, _, rfl⟩
  | noElements | arr => exact ⟨'[', by decide, _, rfl⟩
  | noMembers | obj => exact ⟨'\x7b', by decide, _, rfl⟩

/-! ### Reading -/

/-- What this much fuel is enough to read. The calls of the reader are with one unit
less, so the induction is on the fuel. -/
structure ReadsSpelled (n : ℕ) : Prop where
  value : ∀ v s rest, Spells v s → 2 * s.length ≤ n → Ends rest → readValue n (s ++ rest) = some (v, rest)
  elements : ∀ vs s rest, SpellsElements vs s → 2 * s.length ≤ n → readElements n (s ++ rest) = some (vs, rest)
  members : ∀ ms s rest, SpellsMembers ms s → 2 * s.length ≤ n → readMembers n (s ++ rest) = some (ms, rest)

/-- An array that is not empty does not look like one. -/
theorem elements_head {vs : List Json} (h : SpellsElements vs s) (rest : List Char) :
    ∃ c ∈ starts, ∃ t, skipSpace (s ++ rest) = c :: t := by
  cases h with
  | cons hws hv _ _ =>
    obtain ⟨c, hc, t, rfl⟩ := spells_head hv
    rw [List.append_assoc, skipSpace_blank hws]
    exact ⟨c, hc, _, skipSpace_cons (not_space_of_starts hc).1 _⟩

theorem members_head {ms : List (List Char × Json)} (h : SpellsMembers ms s) (rest : List Char) :
    ∃ t, skipSpace (s ++ rest) = '"' :: t := by
  cases h with
  | cons hws _ _ _ _ _ =>
    rw [List.append_assoc, skipSpace_blank hws]
    exact ⟨_, skipSpace_cons (by decide) _⟩

theorem readsSpelled_value (hn : ReadsSpelled n) (h : Spells v s) (hlen : 2 * s.length ≤ n + 1) (hr : Ends rest) :
    readValue (n + 1) (s ++ rest) = some (v, rest) := by
  cases h with
  | null => rfl
  | bool b => cases b <;> rfl
  | num m => exact readValue_num m hr
  | str s =>
    have hread := readString_print s rest
    rw [printString, List.cons_append, List.append_assoc, List.singleton_append, readValue, skipSpace_cons (by decide)]
    simp only [hread, Option.map_some]
  | noElements hws =>
    rw [List.cons_append, List.append_assoc, List.singleton_append, readValue, skipSpace_cons (by decide)]
    simp only [skipSpace_to hws (show isSpace ']' = false by decide)]
  | arr h =>
    rw [List.length_cons] at hlen
    obtain ⟨c, hc, t, ht⟩ := elements_head h rest
    have hread := hn.elements _ _ rest h (by omega)
    rw [List.cons_append, readValue, skipSpace_cons (by decide)]
    simp only
    split
    · next heq =>
      rw [ht] at heq
      obtain ⟨rfl, -⟩ := List.cons.inj heq
      exact absurd rfl (not_space_of_starts hc).2
    · rw [readElements_skip, hread, Option.map_some]
  | noMembers hws =>
    rw [List.cons_append, List.append_assoc, List.singleton_append, readValue, skipSpace_cons (by decide)]
    simp only [skipSpace_to hws (show isSpace '\x7d' = false by decide)]
  | obj h =>
    rw [List.length_cons] at hlen
    have hread := hn.members _ _ rest h (by omega)
    obtain ⟨t, ht⟩ := members_head h rest
    rw [List.cons_append, readValue_members ht, ← ht, readMembers_skip, hread, Option.map_some]

theorem readsSpelled_elements (hn : ReadsSpelled n) {vs : List Json} (h : SpellsElements vs s)
    (hlen : 2 * s.length ≤ n + 1) (rest : List Char) : readElements (n + 1) (s ++ rest) = some (vs, rest) := by
  obtain @⟨v, vs, s, t, ws, ws', hws, hv, hws', hvs⟩ := h
  simp only [List.length_append] at hlen
  cases hvs with
  | close =>
    simp only [List.length_singleton] at hlen
    have hread := hn.value v s (ws' ++ ']' :: rest) hv (by omega) (ends_blank hws' (by decide) rest)
    simp only [List.append_assoc, List.singleton_append]
    rw [readElements, readValue_blank hws, hread]
    simp only [Option.bind_eq_bind, Option.bind_some]
    rw [skipSpace_to hws' (by decide)]
    rfl
  | @more _ t hvs =>
    rw [List.length_cons] at hlen
    have hread := hn.value v s (ws' ++ ',' :: (t ++ rest)) hv (by omega) (ends_blank hws' (by decide) _)
    have hmore := hn.elements vs t rest hvs (by omega)
    simp only [List.append_assoc, List.cons_append]
    rw [readElements, readValue_blank hws, hread]
    simp only [Option.bind_eq_bind, Option.bind_some]
    rw [skipSpace_to hws' (by decide)]
    simp only [hmore, Option.map_some]

theorem readsSpelled_members (hn : ReadsSpelled n) {ms : List (List Char × Json)} (h : SpellsMembers ms s)
    (hlen : 2 * s.length ≤ n + 1) (rest : List Char) : readMembers (n + 1) (s ++ rest) = some (ms, rest) := by
  obtain @⟨k, v, ms, s, t, ws, ws', ws'', ws₃, hws, hws', hws'', hv, hws₃, hms⟩ := h
  simp only [List.length_append, List.length_cons] at hlen
  have hkey := readString_print k (ws' ++ ':' :: (ws'' ++ (s ++ (ws₃ ++ (t ++ rest)))))
  simp only [printString, List.append_assoc, List.cons_append, List.nil_append] at hkey ⊢
  rw [readMembers, skipSpace_to hws (by decide)]
  simp only [hkey, Option.bind_eq_bind, Option.bind_some]
  rw [skipSpace_to hws' (by decide)]
  simp only [readValue_blank hws'']
  cases hms with
  | close =>
    have hread := hn.value v s (ws₃ ++ '\x7d' :: rest) hv (by omega) (ends_blank hws₃ (by decide) rest)
    rw [List.singleton_append, hread]
    simp only [Option.bind_some]
    rw [skipSpace_to hws₃ (by decide)]
    rfl
  | @more _ t hms =>
    rw [List.length_cons] at hlen
    have hread := hn.value v s (ws₃ ++ ',' :: (t ++ rest)) hv (by omega) (ends_blank hws₃ (by decide) _)
    have hmore := hn.members ms t rest hms (by omega)
    rw [List.cons_append, hread]
    simp only [Option.bind_some]
    rw [skipSpace_to hws₃ (by decide)]
    simp only [hmore, Option.map_some]

theorem readsSpelled (n : ℕ) : ReadsSpelled n := by
  induction n with
  | zero =>
    constructor
    · intro v s rest h hlen _
      obtain ⟨c, -, t, rfl⟩ := spells_head h
      simp at hlen
    · rintro vs s rest ⟨-, hv, -, -⟩ hlen
      obtain ⟨c, -, t, rfl⟩ := spells_head hv
      simp at hlen
    · rintro ms s rest ⟨-, -, -, -, -, -⟩ hlen
      simp at hlen
  | succ n ih =>
    exact ⟨fun v s rest h hlen hr => readsSpelled_value ih h hlen hr,
      fun vs s rest h hlen => readsSpelled_elements ih h hlen rest,
      fun ms s rest h hlen => readsSpelled_members ih h hlen rest⟩

/-- Every spelling of a value, between white space, reads as the value. -/
theorem read_spelled {ws' : List Char} (hws : Blank ws) (h : Spells v s) (hws' : Blank ws') :
    read (ws ++ (s ++ ws')) = some v := by
  have hends : Ends ws' := by
    have hnil := ends_blank hws' (show inNumber ']' = false by decide) []
    cases ws' with
    | nil => rintro c ⟨⟩
    | cons c ws' => exact hnil
  have hread := (readsSpelled (2 * (ws ++ (s ++ ws')).length + 1)).value v s ws' h
    (by simp only [List.length_append]; omega) hends
  have hrest : skipSpace ws' = [] := List.dropWhile_eq_nil_iff.2 hws'
  rw [read, readValue_blank hws, hread]
  simp only [hrest, if_true]

/-! ### A printer with indentation -/

/-- The start of a line at this depth. -/
def newline (indent : List Char) (level : ℕ) : List Char := '\n' :: (List.replicate level indent).flatten

mutual

def printIndent (indent : List Char) (level : ℕ) : Json → List Char
  | .arr (v :: vs) =>
    '[' :: (newline indent (level + 1) ++ (printIndent indent (level + 1) v ++ printElementsIndent indent level vs))
  | .obj ((k, v) :: ms) =>
    '\x7b' :: (newline indent (level + 1) ++ (printString k ++ ':' :: ' ' ::
      (printIndent indent (level + 1) v ++ printMembersIndent indent level ms)))
  | v => print v

/-- The elements after the first one, and the end of the array. -/
def printElementsIndent (indent : List Char) (level : ℕ) : List Json → List Char
  | [] => newline indent level ++ [']']
  | v :: vs =>
    ',' :: (newline indent (level + 1) ++ (printIndent indent (level + 1) v ++ printElementsIndent indent level vs))

def printMembersIndent (indent : List Char) (level : ℕ) : List (List Char × Json) → List Char
  | [] => newline indent level ++ ['\x7d']
  | (k, v) :: ms =>
    ',' :: (newline indent (level + 1) ++ (printString k ++ ':' :: ' ' ::
      (printIndent indent (level + 1) v ++ printMembersIndent indent level ms)))

end

variable {indent : List Char}

theorem blank_newline (hi : Blank indent) (level : ℕ) : Blank (newline indent level) := by
  intro c hc
  rcases List.mem_cons.1 hc with rfl | hc
  · decide
  · obtain ⟨s, hs, hc⟩ := List.mem_flatten.1 hc
    exact hi c (List.eq_of_mem_replicate hs ▸ hc)

theorem blank_nil : Blank [] := by decide

theorem blank_space : Blank [' '] := by decide

mutual

theorem spells_printIndent (hi : Blank indent) (level : ℕ) : ∀ v : Json, Spells v (printIndent indent level v)
  | .null => .null
  | .bool b => .bool b
  | .num n => .num n
  | .str s => .str s
  | .arr [] => .noElements blank_nil
  | .obj [] => .noMembers blank_nil
  | .arr (v :: vs) => by
    obtain ⟨ws, t, hws, hvs, heq⟩ := spells_printElementsIndent hi level vs
    rw [printIndent, heq]
    exact .arr (.cons (blank_newline hi _) (spells_printIndent hi (level + 1) v) hws hvs)
  | .obj ((k, v) :: ms) => by
    obtain ⟨ws, t, hws, hms, heq⟩ := spells_printMembersIndent hi level ms
    rw [printIndent, heq]
    exact .obj (.cons (blank_newline hi _) blank_nil blank_space (spells_printIndent hi (level + 1) v) hws hms)

theorem spells_printElementsIndent (hi : Blank indent) (level : ℕ) : ∀ vs, ∃ ws t,
    Blank ws ∧ SpellsMoreElements vs t ∧ printElementsIndent indent level vs = ws ++ t
  | [] => ⟨_, _, blank_newline hi level, .close, rfl⟩
  | v :: vs => by
    obtain ⟨ws, t, hws, hvs, heq⟩ := spells_printElementsIndent hi level vs
    rw [printElementsIndent, heq]
    exact ⟨[], _, blank_nil, .more (.cons (blank_newline hi _) (spells_printIndent hi (level + 1) v) hws hvs), rfl⟩

theorem spells_printMembersIndent (hi : Blank indent) (level : ℕ) : ∀ ms, ∃ ws t,
    Blank ws ∧ SpellsMoreMembers ms t ∧ printMembersIndent indent level ms = ws ++ t
  | [] => ⟨_, _, blank_newline hi level, .close, rfl⟩
  | (k, v) :: ms => by
    obtain ⟨ws, t, hws, hms, heq⟩ := spells_printMembersIndent hi level ms
    rw [printMembersIndent, heq]
    have hv := spells_printIndent hi (level + 1) v
    exact ⟨[], _, blank_nil, .more (.cons (blank_newline hi _) blank_nil blank_space hv hws hms), rfl⟩

end

/-- What is printed with indentation reads back as the same value. -/
theorem read_printIndent (hi : Blank indent) (v : Json) : read (printIndent indent 0 v) = some v := by
  have hread := read_spelled blank_nil (spells_printIndent hi 0 v) blank_nil
  rwa [List.nil_append, List.append_nil] at hread

end RulesSystemtest.Library.Json
