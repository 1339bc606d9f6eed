import RulesSystemtest.Library.Overlay
import RulesSystemtest.Proto.Messages
import Mathlib.Data.List.Chain

/-! The environment variables of a fixture: how the runner makes names of fixtures
and ports into parts of variable names, what the rule layer publishes as the part
that belongs to a fixture, and the variables that one lease's outputs define. The
JSON decoder of the ports blobs is an argument. -/

namespace RulesSystemtest.Runner

open Library

/-! ### Parts of variable names -/

/-- `nonAlnum.ReplaceAllString(s, "_")`, where `inRun` tells that the characters before
belong to a run which is replaced already. -/
def replaceNonAlnum (inRun : Bool) : List Char → List Char
  | [] => []
  | c :: cs =>
    if c.isAlphanum then c :: replaceNonAlnum false cs
    else if inRun then replaceNonAlnum true cs
    else '_' :: replaceNonAlnum true cs

/-- The runner's sanitizer. What is left to convert to upper case is ASCII. -/
def envFragment (s : String) : String := String.ofList ((replaceNonAlnum false s.toList).map Char.toUpper)

def safe : List Char := "ABCDEFGHIJKLMNOPQRSTUVWXYZ0123456789_".toList

/-- The rule layer's sanitizer, on ASCII target names. -/
def envPrefixForFixture (fixtureName : String) : Except String String :=
  match (fixtureName.toList.map Char.toUpper).map fun c => if c ∈ safe then c else '_' with
  | [] => .error "fixture_name must not be empty"
  | c :: cs => .ok (String.ofList (if c.isDigit then '_' :: c :: cs else c :: cs))

/-! ### The variables of one lease -/

structure PortEntry where
  name : String
  protocol : String
  tunnel : Bool
  host : String
  port : Int64
  deriving DecidableEq

/-- The contents of a `systemtest.ports` output. -/
structure PortsSchema where
  ports : List PortEntry
  deriving DecidableEq

abbrev Env := HashMap String String

def portsSchemaID : String := "systemtest.ports"

/-- Go's `%q`. A character outside ASCII is left as it is. -/
def quoteChar (c : Char) : String :=
  if c = '"' then "\\\""
  else if c = '\\' then "\\\\"
  else if c = '\x07' then "\\a"
  else if c = '\x08' then "\\b"
  else if c = '\x0c' then "\\f"
  else if c = '\n' then "\\n"
  else if c = '\r' then "\\r"
  else if c = '\t' then "\\t"
  else if c = '\x0b' then "\\v"
  else if c.toNat < 0x20 ∨ c.toNat = 0x7f then
    "\\x" ++ String.ofList [Nat.digitChar (c.toNat / 16), Nat.digitChar (c.toNat % 16)]
  else String.singleton c

def quote (s : String) : String := "\"" ++ String.join (s.toList.map quoteChar) ++ "\""

def getSchemaBlob (v : Value) : Option SchemaBlob :=
  match v.value with
  | some (.schemaBlob blob) => some blob
  | _ => none

def hostVar (fixturePrefix portName : String) : String := fixturePrefix ++ "_" ++ portName ++ "_HOST"

def portVar (fixturePrefix portName : String) : String := fixturePrefix ++ "_" ++ portName ++ "_PORT"

/-- `strconv.Itoa`. -/
def itoa (i : Int64) : String := i.toInt.repr

/-- One port entry: a tunneled one is skipped. -/
def setPortEnv (fixturePrefix : String) (env : Env) (p : PortEntry) : Env :=
  if p.tunnel then env
  else
    (env.insert (hostVar fixturePrefix (envFragment p.name)) p.host).insert
      (portVar fixturePrefix (envFragment p.name)) (itoa p.port)

/-- One output: what is no ports blob is skipped. -/
def setOutputEnv (unmarshal : Bytes → Except String PortsSchema) (fixtureName : String) (env : Env)
    (output : String × Value) : Except String Env :=
  match getSchemaBlob output.2 with
  | none => .ok env
  | some blob =>
    if blob.schemaId ≠ portsSchemaID then .ok env
    else
      match unmarshal blob.contents with
      | .error e => .error ("fixture " ++ quote fixtureName ++ " output " ++ quote output.1 ++
          ": parsing systemtest.ports: " ++ e)
      | .ok parsed => .ok (parsed.ports.foldl (setPortEnv (envFragment fixtureName)) env)

/-- The variables of one lease, whose outputs are listed in the order in which the map
is ranged over. -/
def portEnvFromOutputs (unmarshal : Bytes → Except String PortsSchema) (fixtureName : String)
    (outputs : List (String × Value)) : Except String Env :=
  outputs.foldlM (setOutputEnv unmarshal fixtureName) ∅

/-! ### One character at a time -/

/-- A character as it appears in a variable name. -/
def envChar (c : Char) : Char := if c.isAlphanum then c.toUpper else '_'

theorem isAlphanum_of_not_ascii {c : Char} (hc : ¬ c.toNat < 128) : c.isAlphanum = false := by
  have hval : ¬ c.val.toNat < 128 := hc
  apply Bool.eq_false_iff.2
  intro h
  rcases Bool.or_eq_true_iff.1 h with h | h
  · rcases Bool.or_eq_true_iff.1 h with h | h
    · have hle : c.val.toNat ≤ 90 := (of_decide_eq_true h).2
      omega
    · have hle : c.val.toNat ≤ 122 := of_decide_eq_true (Bool.and_eq_true_iff.1 h).2
      omega
  · have hle : c.val.toNat ≤ 57 := of_decide_eq_true (Bool.and_eq_true_iff.1 h).2
    omega

theorem safe_toUpper (c : Char) : (if c.toUpper ∈ safe then c.toUpper else '_') = envChar c := by
  have hascii : ∀ n : Fin 128, (if (Char.ofNat n).toUpper ∈ safe then (Char.ofNat n).toUpper else '_') =
      envChar (Char.ofNat n) := by decide +kernel
  by_cases hc : c.toNat < 128
  · simpa using hascii ⟨c.toNat, hc⟩
  · have hval : ¬ c.val.toNat < 128 := hc
    have hupper : c.toUpper = c := by
      refine dif_neg fun h => ?_
      have h2 : c.val.toNat ≤ 122 := h.2
      omega
    have hsafe : c ∉ safe := by
      have hall : safe.all (fun x => x.toNat < 128) = true := by decide
      exact fun hm => hc (by simpa using List.all_eq_true.1 hall c hm)
    have halnum := isAlphanum_of_not_ascii hc
    rw [hupper, if_neg hsafe, envChar, if_neg (by rw [halnum]; decide)]

/-! ### Names of variables -/

/-- A name that a shell takes for one of a variable, apart from a digit in front. -/
def SafeName (s : String) : Prop := ∀ c ∈ s.toList, c ∈ safe

instance (s : String) : Decidable (SafeName s) :=
  decidable_of_iff (s.toList.all (fun c => decide (c ∈ safe)) = true) (by simp [SafeName])

theorem SafeName.append {s t : String} (hs : SafeName s) (ht : SafeName t) : SafeName (s ++ t) := by
  intro c hc
  rw [String.toList_append, List.mem_append] at hc
  exact hc.elim (hs c) (ht c)

theorem toUpper_mem_safe {c : Char} (hc : c.isAlphanum = true) : c.toUpper ∈ safe := by
  by_contra hmem
  have hupper := safe_toUpper c
  rw [if_neg hmem, envChar, if_pos hc] at hupper
  rw [← hupper] at hmem
  exact hmem (by decide)

theorem mem_replaceNonAlnum {inRun : Bool} {cs : List Char} {c : Char} (hc : c ∈ replaceNonAlnum inRun cs) :
    c.isAlphanum = true ∨ c = '_' := by
  induction cs generalizing inRun with
  | nil => cases hc
  | cons d cs ih =>
    unfold replaceNonAlnum at hc
    split at hc
    · next hd =>
      rcases List.mem_cons.1 hc with rfl | hc
      · exact .inl hd
      · exact ih hc
    · split at hc
      · exact ih hc
      · rcases List.mem_cons.1 hc with rfl | hc
        · exact .inr rfl
        · exact ih hc

theorem safeName_envFragment (s : String) : SafeName (envFragment s) := by
  intro c hc
  rw [envFragment, String.toList_ofList, List.mem_map] at hc
  obtain ⟨d, hd, rfl⟩ := hc
  rcases mem_replaceNonAlnum hd with halnum | rfl
  · exact toUpper_mem_safe halnum
  · decide

/-- What the runner puts together from two fragments, an underscore and an ending. -/
theorem safeName_var (s t : String) {ending : String} (h : SafeName ending) :
    SafeName (envFragment s ++ "_" ++ envFragment t ++ ending) := by
  have hunderscore : SafeName "_" := by decide
  exact (((safeName_envFragment s).append hunderscore).append (safeName_envFragment t)).append h

theorem safeName_hostVar (s t : String) : SafeName (hostVar (envFragment s) (envFragment t)) :=
  safeName_var s t (by decide)

theorem safeName_portVar (s t : String) : SafeName (portVar (envFragment s) (envFragment t)) :=
  safeName_var s t (by decide)

/-! ### The two sanitizers agree -/

variable {s : String} {cs : List Char}

/-- No two neighbours that a sanitizer replaces. -/
def Separated (cs : List Char) : Prop := cs.IsChain fun a b => a.isAlphanum = true ∨ b.isAlphanum = true

instance (cs : List Char) : Decidable (Separated cs) := inferInstanceAs (Decidable (List.IsChain _ _))

theorem length_replaceNonAlnum (inRun : Bool) (cs : List Char) :
    (replaceNonAlnum inRun cs).length ≤ cs.length := by
  induction cs generalizing inRun with
  | nil => exact le_rfl
  | cons c cs ih =>
    unfold replaceNonAlnum
    split
    · exact Nat.succ_le_succ (ih _)
    · split
      · exact (ih _).trans (Nat.le_succ _)
      · exact Nat.succ_le_succ (ih _)

/-- A run that goes on loses a character. -/
theorem length_replaceNonAlnum_run {c : Char} (hc : c.isAlphanum = false) (cs : List Char) :
    (replaceNonAlnum true (c :: cs)).length < (c :: cs).length := by
  rw [replaceNonAlnum, if_neg (by simp [hc]), if_pos rfl]
  exact Nat.lt_succ_of_le (length_replaceNonAlnum _ _)

theorem length_replaceNonAlnum_lt (inRun : Bool) (h : ¬ Separated cs) :
    (replaceNonAlnum inRun cs).length < cs.length := by
  induction cs generalizing inRun with
  | nil => exact absurd .nil h
  | cons c cs ih =>
    cases cs with
    | nil => exact absurd (.singleton c) h
    | cons d cs =>
      rw [Separated, List.isChain_cons_cons, not_and_or] at h
      by_cases hpair : c.isAlphanum = true ∨ d.isAlphanum = true
      · have htail := fun inRun => ih inRun (h.resolve_left (not_not.2 hpair))
        rw [replaceNonAlnum]
        split
        · exact Nat.succ_lt_succ (htail false)
        · split
          · exact (htail true).trans (Nat.lt_succ_self _)
          · exact Nat.succ_lt_succ (htail true)
      · simp only [not_or, Bool.not_eq_true] at hpair
        have htail := length_replaceNonAlnum_run hpair.2 cs
        rw [replaceNonAlnum, if_neg (by simp [hpair.1])]
        split
        · exact htail.trans (Nat.lt_succ_self _)
        · exact Nat.succ_lt_succ htail

/-- Without such neighbours every run is one character. -/
theorem map_replaceNonAlnum (h : Separated cs) (inRun : Bool)
    (hrun : inRun = true → ∀ c ∈ cs.head?, c.isAlphanum = true) :
    (replaceNonAlnum inRun cs).map Char.toUpper = cs.map envChar := by
  induction cs generalizing inRun with
  | nil => rfl
  | cons c cs ih =>
    have htail : Separated cs := h.tail
    by_cases hc : c.isAlphanum = true
    · rw [replaceNonAlnum, if_pos hc, List.map_cons, List.map_cons, ih htail false (by simp), envChar, if_pos hc]
    · have hfirst : inRun = false := by
        by_contra hrun'
        exact hc (hrun (by simpa using hrun') c rfl)
      have hnext : ∀ d ∈ cs.head?, d.isAlphanum = true := by
        intro d hd
        cases cs with
        | nil => cases hd
        | cons d' cs =>
          obtain rfl := Option.some.inj hd
          exact (List.isChain_cons_cons.1 h).1.resolve_left hc
      rw [replaceNonAlnum, if_neg hc, hfirst, if_neg (by simp), List.map_cons, List.map_cons,
        ih htail true fun _ => hnext, envChar, if_neg hc]
      rfl

/-- The published prefix, one character of the name at a time. -/
theorem envPrefixForFixture_eq {c : Char} (hs : s.toList = c :: cs) : envPrefixForFixture s =
    .ok (String.ofList (if (envChar c).isDigit then '_' :: s.toList.map envChar else s.toList.map envChar)) := by
  simp only [envPrefixForFixture, hs, List.map_cons, safe_toUpper, List.map_map, Function.comp_def]

theorem isDigit_envChar (c : Char) : (envChar c).isDigit = c.isDigit := by
  have hascii : ∀ n : Fin 128, (envChar (Char.ofNat n)).isDigit = (Char.ofNat n).isDigit := by decide +kernel
  by_cases hc : c.toNat < 128
  · simpa using hascii ⟨c.toNat, hc⟩
  · have halnum := isAlphanum_of_not_ascii hc
    have hdigit : c.isDigit = false := by
      rw [Char.isAlphanum, Bool.or_eq_false_iff] at halnum
      exact halnum.2
    rw [envChar, if_neg (by rw [halnum]; decide), hdigit]
    rfl

/-- The rule layer and the runner agree on exactly the names that start with no digit
and have no two adjacent characters which are not ASCII letters or digits. -/
theorem envPrefix_agrees_iff (hs : s ≠ "") : envPrefixForFixture s = .ok (envFragment s) ↔
    (∀ c ∈ s.toList.head?, c.isDigit = false) ∧ Separated s.toList := by
  obtain ⟨c, cs, hcs⟩ : ∃ c cs, s.toList = c :: cs := by
    cases hl : s.toList with
    | nil => exact absurd (String.toList_eq_nil_iff.1 hl) hs
    | cons c cs => exact ⟨c, cs, rfl⟩
  have hhead : (∀ d ∈ s.toList.head?, d.isDigit = false) ↔ c.isDigit = false := by simp [hcs]
  rw [envPrefixForFixture_eq hcs, isDigit_envChar, envFragment, Except.ok.injEq, String.ofList_inj, hhead]
  have hlen := length_replaceNonAlnum false s.toList
  constructor
  · intro heq
    have heq' := congrArg List.length heq
    rw [List.length_map] at heq'
    cases hd : c.isDigit with
    | true =>
      simp only [hd, if_true, List.length_cons, List.length_map] at heq'
      omega
    | false =>
      refine ⟨rfl, ?_⟩
      by_contra hsep
      have hlt := length_replaceNonAlnum_lt false hsep
      simp only [hd, Bool.false_eq_true, if_false, List.length_map] at heq'
      omega
  · rintro ⟨hd, hsep⟩
    rw [hd, if_neg (by decide), map_replaceNonAlnum hsep false (by simp)]

theorem envPrefix_agrees_iff_sample : envPrefixForFixture "redis-main" = .ok (envFragment "redis-main") :=
  (envPrefix_agrees_iff (by decide)).2 ⟨by simp, by decide⟩

/-- The rule layer's test has `_2_DB` as the prefix of this name. -/
theorem envPrefix_disagrees : envPrefixForFixture "2-db" = .ok "_2_DB" ∧ envFragment "2-db" = "2_DB" ∧
    ¬ ∀ s, s ≠ "" → (∀ c ∈ s.toList, c.toNat < 128) → envPrefixForFixture s = .ok (envFragment s) := by
  refine ⟨by decide, by decide, fun hall => ?_⟩
  have hascii : ∀ c ∈ "2-db".toList, c.toNat < 128 := by simp
  exact absurd (hall "2-db" (by decide) hascii) (by decide)

end RulesSystemtest.Runner
